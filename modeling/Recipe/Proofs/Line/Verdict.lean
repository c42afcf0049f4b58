import Mathlib.Data.List.Forall2
import Recipe.Proofs.Line.Blame

/-!
# Reading finds what is wrong with a line

Every grammar comes to the right verdict on its line: it finds no fault in a
grammatical line, and the blamed token in any other.  Each statement below
follows one grammar through the languages that are left behind the tokens it
has taken; in the end the lines of a source are put together.
-/

namespace Recipe.Line

open Computability Token

/-- What is wrong with a line after its statement has been read, or not. -/
def faultOf : Except Refusal (Statement × Feed) → Option Fault
  | .error refusal => refusal
  | .ok (_, rest) =>
    if rest.head.kind.isLineEnd then none else some (.unexpectedToken .lineFeed rest.head)

theorem fault?_readLine {h u : Token} {w : List Token} (hh : ¬ h.kind.isLineEnd) :
    (Feed.readLine .strict ⟨h :: w, u⟩).fault? =
      faultOf (Grammar.statement .strict h ⟨w, u⟩) := by
  rw [Feed.readLine_strict hh]
  rcases Grammar.statement .strict h ⟨w, u⟩ with refusal | ⟨s, rest⟩
  · rfl
  · rw [Feed.reading, faultOf]
    split <;> rfl

/-! ## One step of a grammar -/

theorem mem_stop {e : Token} (he : e.kind.isLineEnd) : [e] ∈ stop := cons_mem_one.mpr ⟨he, rfl⟩

theorem cons_notMem_stop {t : Token} {l : List Token} (ht : ¬ t.kind.isLineEnd) : t :: l ∉ stop :=
  fun hl => ht (cons_mem_one.mp hl).1

/-- A word is taken where one is missing. -/
theorem Leaves.append_word {p : List Token} {t : Token} {K : Language Token}
    (h : Leaves p (kind .word * K)) (ht : t.kind = .word) : Leaves (p ++ [t]) K :=
  h.append_singleton fun _ => cons_mem_one_mul.trans (and_iff_right ht)

section Steps

variable {h u : Token} {p w : List Token} {K : Language Token}

/-- There is nothing wrong with a grammatical line that has been read to its
end. -/
theorem verdict_of_mem {l : List Token} {e : Token} (hl : l ∈ language) (he : e.kind.isLineEnd)
    (s : Statement) (u : Token) : Verdict l (faultOf (.ok (s, ⟨[e], u⟩))) := by
  rw [faultOf, Feed.head_mk_cons, if_pos he]
  exact hl

/-- Behind a statement the line has to end. -/
theorem verdict_end (hh : ¬ IsOther h) (hK : Leaves (h :: p) K)
    (hstop : ∀ e : Token, e.kind.isLineEnd → [e] ∈ K)
    (hrest : ∀ t r, w = t :: r → ¬ t.kind.isLineEnd → ∀ l, t :: l ∉ K) (hw : Ends w)
    (s : Statement) : Verdict (h :: p ++ w) (faultOf (.ok (s, ⟨w, u⟩))) := by
  cases hw with
  | @stop e he => exact verdict_of_mem ((hK [e]).mpr (hstop e he)) he s u
  | @cons t r ht _ =>
    rw [faultOf, Feed.head_mk_cons, if_neg ht]
    have hend : (Token.bare .textEnd []).kind.isLineEnd := rfl
    have hcontent := (hK.mem_content_iff hend).mpr (hstop _ hend)
    have hblames := hK.blames ⟨_, hstop _ hend⟩ (hrest t r rfl ht) r
    rwa [cause_of_mem_content hh hcontent] at hblames

/-- Where nothing may stand but the end of the line, any other token is to
blame. -/
theorem verdict_stop (hh : ¬ IsOther h) (hK : Leaves (h :: p) stop) (hw : Ends w)
    (s : Statement) : Verdict (h :: p ++ w) (faultOf (.ok (s, ⟨w, u⟩))) :=
  verdict_end hh hK (fun _ => mem_stop) (fun _ _ _ ht _ => cons_notMem_stop ht) hw s

/-- Where only a word may stand, another token is to blame, and a word is
taken. -/
theorem verdict_expect {k : Token → Grammar Statement} (hh : ¬ IsOther h)
    (hK : Leaves (h :: p) K) (hne : ∃ l, l ∈ K) (hword : ∀ t l, t :: l ∈ K → t.kind = .word)
    (hw : Ends w)
    (hk : ∀ t r, w = t :: r → t.kind = .word → Ends r →
      Verdict (h :: (p ++ [t]) ++ r) (faultOf (k t ⟨r, u⟩))) :
    Verdict (h :: p ++ w) (faultOf ((Grammar.expect .word >>= k) ⟨w, u⟩)) := by
  obtain ⟨t, r, rfl⟩ := hw.exists_cons
  by_cases ht : t.kind = .word
  · rw [Grammar.bind_of_ok (Grammar.expect_cons ht)]
    have hverdict := hk t r rfl ht (hw.tail (by simp [ht, Kind.isLineEnd]))
    rwa [List.cons_append, List.append_assoc, List.singleton_append] at hverdict
  · rw [Grammar.bind_of_error (Grammar.expect_cons_of_ne ht), faultOf]
    have hend : (Token.bare .textEnd []).kind.isLineEnd := rfl
    have hcontent : h :: p ∉ content := by
      intro hcontent
      cases hword _ _ ((hK.mem_content_iff hend).mp hcontent)
    have hblames := hK.blames hne (fun l hl => ht (hword t l hl)) r
    rwa [cause_of_notMem_content hh hcontent ht] at hblames

/-- Where the line may end or go on with a token, this token is taken if it is
there, and any other one is to blame. -/
theorem verdict_accept {k : Option Token → Grammar Statement} {c : Kind} {s : Statement}
    (hh : ¬ IsOther h) (hc : c.isLineEnd = false) (hK : Leaves (h :: p) (stop + kind c * K))
    (hw : Ends w) (hnone : k none = pure s)
    (hsome : ∀ t r, Leaves (h :: (p ++ [t])) K → Ends r →
      Verdict (h :: (p ++ [t]) ++ r) (faultOf (k (some t) ⟨r, u⟩))) :
    Verdict (h :: p ++ w) (faultOf ((Grammar.accept? c >>= k) ⟨w, u⟩)) := by
  obtain ⟨t, r, rfl⟩ := hw.exists_cons
  by_cases ht : t.kind = c
  · have hend : ¬ t.kind.isLineEnd := by simp [ht, hc]
    have hleaves : Leaves (h :: (p ++ [t])) K := by
      apply hK.append_singleton
      intro l
      rw [Language.mem_add, cons_mem_one_mul]
      simp [ht, cons_notMem_stop hend]
    rw [Grammar.bind_of_ok (Grammar.accept?_cons ht)]
    have hverdict := hsome t r hleaves (hw.tail hend)
    rwa [List.cons_append, List.append_assoc, List.singleton_append] at hverdict
  · rw [Grammar.bind_of_ok (Grammar.accept?_cons_of_ne ht), hnone]
    refine verdict_end hh hK (fun e he => .inl (mem_stop he)) ?_ hw s
    intro t' r' heq hend l
    obtain ⟨rfl, rfl⟩ := List.cons.inj heq
    rw [Language.mem_add, cons_mem_one_mul]
    simp [ht, cons_notMem_stop hend]

end Steps

/-! ## The flags of a line -/

/-- A line whose head takes flags: a word that starts like a flag without being
one is to blame, and a source ends the flags. -/
theorem verdict_flags {h u : Token} {K : Language Token} {k : List Flag × Token → Grammar Statement}
    {fs w : List Token} (hhead : h.kind = .keyword .fromImage ∨ h.kind = .keyword .copy)
    (hne : ∃ l, l ∈ K) (hfs : fs ∈ (one IsFlag)∗)
    (hK : Leaves (h :: fs) ((one IsFlag)∗ * (one IsSource * K))) (hw : Ends w)
    (hk : ∀ gs s r flags, Leaves (h :: (gs ++ [s])) K → Ends r →
      Verdict (h :: (gs ++ [s]) ++ r) (faultOf (k (flags, s) ⟨r, u⟩))) :
    Verdict (h :: fs ++ w)
      (faultOf ((Grammar.expect .word >>= fun t => Grammar.flags .strict t >>= k) ⟨w, u⟩)) := by
  have hother : ¬ IsOther h := by
    rcases hhead with hhead | hhead <;> simp [isOther_iff hhead]
  induction w generalizing fs k with
  | nil => cases hw
  | cons t w ih =>
    refine verdict_expect hother hK (exists_mem_flags hne)
      (fun t l hl => Classical.byContradiction fun ht => cons_notMem_flags_of_ne_word ht hl) hw ?_
    intro t' r heq ht hr
    obtain ⟨rfl, rfl⟩ := List.cons.inj heq
    rcases isFlag_or_isStrayFlag_or_isSource ht with hflag | hstray | hsource
    · obtain ⟨flag, hflag'⟩ := hflag.exists_flag?
      rw [Grammar.flags_of_flag?_eq_some hflag', bind_assoc]
      simp only [bind_assoc, pure_bind]
      refine ih (mem_star.mpr ?_) ?_ hr fun gs s r flags hs hr => hk gs s r (flag :: flags) hs hr
      · exact List.forall_mem_append.mpr ⟨mem_star.mp hfs, by simpa using hflag⟩
      · exact hK.append_singleton fun l => cons_mem_flags_of_isFlag hflag
    · obtain ⟨hbody, hnone⟩ := hstray.flag?
      rw [Grammar.flags_of_flag?_eq_none hbody hnone, Grammar.bind_of_error rfl]
      have hblames := hK.blames (exists_mem_flags hne)
        (fun l => cons_notMem_flags (fun hflag => hflag.not_isStrayFlag hstray)
          hstray.not_isSource) w
      rw [cause_strayFlag hhead hfs hstray] at hblames
      rw [List.cons_append, List.append_assoc, List.singleton_append]
      exact hblames
    · rw [Grammar.flags_of_body?_isNone ((isSource_iff.mp hsource).2), pure_bind]
      exact hk fs t w [] (hK.append_singleton fun l => cons_mem_flags_of_isSource hsource) hr

/-! ## The grammars of the statements -/

section Statements

variable {h u : Token} {w : List Token}

/-- The language behind the head of a line. -/
theorem Leaves.of_kind {k : Kind} (hh : h.kind = k) : Leaves [h] (behind k) :=
  hh ▸ Leaves.head h

theorem kind_of_cons_mem {t : Token} {l : List Token} {k : Kind} {K : Language Token}
    (hl : t :: l ∈ kind k * K) : t.kind = k :=
  (cons_mem_one_mul.mp hl).1

theorem verdict_comment (hh : h.kind = .hash) (hw : Ends w) :
    Verdict (h :: w) (faultOf (Grammar.comment h ⟨w, u⟩)) := by
  have hother : ¬ IsOther h := not_isOther (by simp [hh])
  have hleaves : Leaves [h] (kind .word * stop) := .of_kind hh
  refine verdict_expect hother hleaves (exists_mem_kind_mul _ exists_mem_stop)
    (fun _ _ => kind_of_cons_mem) hw ?_
  intro value r _ hvalue hr
  exact verdict_stop hother (hleaves.append_word hvalue) hr _

theorem verdict_copy (hh : h.kind = .keyword .copy) (hw : Ends w) :
    Verdict (h :: w) (faultOf (Grammar.copy .strict h ⟨w, u⟩)) := by
  have hother : ¬ IsOther h := by simp [isOther_iff hh]
  have hne := exists_mem_kind_mul .word exists_mem_stop
  apply verdict_flags (.inr hh) hne (mem_star.mpr (by simp)) (.of_kind hh) hw
  intro gs s r flags hleaves hr
  apply verdict_expect hother hleaves hne (fun _ _ => kind_of_cons_mem) hr
  intro dest r _ hdest hr
  exact verdict_stop hother (hleaves.append_word hdest) hr _

theorem verdict_fromImage (hh : h.kind = .keyword .fromImage) (hw : Ends w) :
    Verdict (h :: w) (faultOf (Grammar.fromImage .strict h ⟨w, u⟩)) := by
  have hother : ¬ IsOther h := by simp [isOther_iff hh]
  obtain ⟨l, hl⟩ := exists_mem_stop
  refine verdict_flags (.inl hh) ⟨l, .inl hl⟩ (mem_star.mpr (by simp)) (.of_kind hh) hw ?_
  intro gs s r flags hleaves hr
  refine verdict_accept hother rfl hleaves hr rfl ?_
  intro as r hleaves hr
  refine verdict_expect hother hleaves (exists_mem_kind_mul _ exists_mem_stop)
    (fun _ _ => kind_of_cons_mem) hr ?_
  intro stage r _ hstage hr
  exact verdict_stop hother (hleaves.append_word hstage) hr _

theorem verdict_arg (hh : h.kind = .keyword .arg) (hw : Ends w) :
    Verdict (h :: w) (faultOf (Grammar.arg h ⟨w, u⟩)) := by
  have hother : ¬ IsOther h := by simp [isOther_iff hh]
  have hleaves : Leaves [h] (kind .word * stop + one IsName * (kind .word * stop)) := .of_kind hh
  obtain ⟨l, hl⟩ := exists_mem_kind_mul .word exists_mem_stop
  refine verdict_expect hother hleaves ⟨l, .inl hl⟩ ?_ hw ?_
  · rintro t l (hl | hl)
    · exact kind_of_cons_mem hl
    · exact (cons_mem_one_mul.mp hl).1.1
  · intro word r _ hword hr
    cases hcut : word.literal.cut? '=' with
    | some p =>
      have hname : ¬ IsName word := by
        intro hname
        rw [Text.cut?_eq_none_iff.mpr hname.2] at hcut
        cases hcut
      refine verdict_stop hother (hleaves.append_singleton ?_) hr _
      intro l
      rw [Language.mem_add, cons_mem_one_mul, cons_mem_one_mul]
      simp [hword, hname]
    | none =>
      have hname : IsName word := ⟨hword, Text.cut?_eq_none_iff.mp hcut⟩
      have hleaves' : Leaves [h, word] (stop + kind .word * stop) := by
        apply hleaves.append_singleton
        intro l
        rw [Language.mem_add, cons_mem_one_mul, cons_mem_one_mul, Language.mem_add]
        simp [hword, hname]
      refine verdict_accept (p := [word]) hother rfl hleaves' hr rfl ?_
      intro value r hleaves' hr
      exact verdict_stop hother hleaves' hr _

/-- Any pieces may stand in a line without a grammar. -/
theorem Leaves.append_pieces {p ps : List Token} (h : Leaves p ((one IsPiece)∗ * stop))
    (hps : ∀ t ∈ ps, IsPiece t) : Leaves (p ++ ps) ((one IsPiece)∗ * stop) := by
  induction ps generalizing p with
  | nil => rwa [List.append_nil]
  | cons t ps ih =>
    obtain ⟨ht, hps⟩ := List.forall_mem_cons.mp hps
    rw [List.append_cons]
    refine ih (h.append_singleton ?_) hps
    intro l
    rw [cons_mem_star_mul]
    simp [ht, cons_notMem_stop ht.2]

theorem verdict_other {k : Keyword} (hh : IsOther h) (hw : Ends w) :
    Verdict (h :: w) (faultOf (Grammar.other k h ⟨w, u⟩)) := by
  have hleaves : Leaves [h] ((one IsPiece)∗ * stop) := by
    rw [← behind_of_isOther hh]
    exact Leaves.head h
  obtain ⟨ws, e, hws, he, rfl⟩ := hw.exists_append
  have hline : Feed.line ⟨ws ++ [e], u⟩ = ws := Feed.line_append hws he
  cases hfind : ws.find? (·.kind = .illegal) with
  | none =>
    have hwords : Grammar.words ⟨ws ++ [e], u⟩ = .ok (ws, ⟨[e], u⟩) := by
      rw [Grammar.words, hline, hfind, Feed.skipLine_append hws he]
    have hpieces : ∀ t ∈ ws, IsPiece t := fun t ht =>
      ⟨by simpa using List.find?_eq_none.mp hfind t ht, hws t ht⟩
    rw [Grammar.other, Grammar.bind_of_ok hwords]
    exact verdict_of_mem
      ((hleaves.append_pieces hpieces [e]).mpr (mem_star_mul_of_mem (mem_stop he))) he _ u
  | some t =>
    have hwords : Grammar.words ⟨ws ++ [e], u⟩ = .error (some (.illegalToken t)) := by
      rw [Grammar.words, hline, hfind]
    obtain ⟨ht, as, bs, rfl, has⟩ := List.find?_eq_some_iff_append.mp hfind
    have hkind : t.kind = .illegal := by simpa using ht
    have hpieces : ∀ a ∈ as, IsPiece a := fun a ha =>
      ⟨by simpa using has a ha, hws a (List.mem_append_left _ ha)⟩
    have hrest : ∀ l, t :: l ∉ (one IsPiece)∗ * stop := by
      intro l hl
      rcases cons_mem_star_mul.mp hl with hl | hl
      · exact cons_notMem_stop (by simp [hkind, Kind.isLineEnd]) hl
      · exact hl.1.1 hkind
    obtain ⟨l, hl⟩ := exists_mem_stop
    have hblames := (hleaves.append_pieces hpieces).blames ⟨l, mem_star_mul_of_mem hl⟩ hrest
      (bs ++ [e])
    rw [List.singleton_append, cause_illegal hh (mem_star.mpr hpieces)] at hblames
    rw [Grammar.other, Grammar.bind_of_error hwords, List.append_assoc]
    exact hblames

/-- Where no line starts with the head, it is to blame. -/
theorem verdict_unexpectedStart (hh : ∀ l, h :: l ∉ language) :
    Verdict (h :: w) (some (.unexpectedStart h)) := by
  have hleaves : Leaves [] language := fun _ => Iff.rfl
  have hempty : [.bare .lineFeed ['\n']] ∈ language := cons_mem_language.mpr Language.nil_mem_one
  have hblames := hleaves.blames ⟨_, hempty⟩ hh w
  rwa [cause_nil] at hblames

/-- **Every grammar comes to the right verdict on its line.** -/
theorem verdict_statement (hend : ¬ h.kind.isLineEnd) (hw : Ends w) :
    Verdict (h :: w) (faultOf (Grammar.statement .strict h ⟨w, u⟩)) := by
  rcases Grammar.statement_cases .strict h with ⟨hh, heq⟩ | ⟨hh, heq⟩ | ⟨hh, heq⟩ | ⟨hh, heq⟩ |
    ⟨k, -, hother, heq⟩ | ⟨hhash, hkeyword, heq⟩
  · rw [heq]
    exact verdict_comment hh hw
  · rw [heq]
    exact verdict_fromImage hh hw
  · rw [heq]
    exact verdict_arg hh hw
  · rw [heq]
    exact verdict_copy hh hw
  · rw [heq]
    exact verdict_other hother hw
  · rw [heq, faultOf]
    apply verdict_unexpectedStart
    intro l hl
    rw [cons_mem_language] at hl
    cases hkind : h.kind with
    | textEnd | lineFeed => simp [hkind, Kind.isLineEnd] at hend
    | hash => exact hhash hkind
    | keyword k => exact hkeyword k hkind
    | _ =>
      rw [hkind] at hl
      exact hl

end Statements

/-! ## The lines of a source -/

/-- A line has at most one fault, and its reader comes to the right verdict. -/
theorem exists_verdict {ws : List Token} {e : Token} (hws : InLine ws) (he : e.kind.isLineEnd) :
    ∃ f?, (parseTokens .strict (ws ++ [e])).faults = f?.toList ∧ Verdict (ws ++ [e]) f? := by
  cases ws with
  | nil =>
    refine ⟨none, (parseTokens_blank he).2, ?_⟩
    show [e] ∈ language
    rw [cons_mem_language]
    have hkind : e.kind = .lineFeed ∨ e.kind = .textEnd := by simpa [Kind.isLineEnd] using he
    rcases hkind with he | he
    · exact he ▸ Language.nil_mem_one
    · exact he ▸ Language.nil_mem_one
  | cons t ws =>
    obtain ⟨ht, hws'⟩ := inLine_cons.mp hws
    refine ⟨_, (parseTokens_line (List.cons_ne_nil t ws) hws he).2, ?_⟩
    rw [List.cons_append, fault?_readLine ht]
    exact verdict_statement ht (ends_append hws' he)

open Classical in
/-- The faults of lines that have been read one by one. -/
theorem forall₂_blames {ls : List (List Token)}
    (hls : ∀ l ∈ ls, ∃ f?, (parseTokens .strict l).faults = f?.toList ∧ Verdict l f?) :
    List.Forall₂ Blames (ls.filter (· ∉ language))
      (ls.flatMap fun l => (parseTokens .strict l).faults) := by
  induction ls with
  | nil => exact .nil
  | cons l ls ih =>
    obtain ⟨⟨f?, hfaults, hverdict⟩, hls⟩ := List.forall_mem_cons.mp hls
    rw [List.flatMap_cons, hfaults]
    cases f? with
    | none =>
      have hl : ¬ l ∉ language := not_not_intro hverdict
      rw [List.filter_cons_of_neg (by simpa using hl)]
      exact ih hls
    | some f =>
      have hl : l ∉ language := Blames.notMem_language hverdict
      rw [List.filter_cons_of_pos (by simpa using hl)]
      exact .cons hverdict (ih hls)

open Classical in
/-- **What a strict reader reports**: for every line that is not grammatical, in
the order of the lines, the first token that no grammatical line has there, and
nothing else.  So there is nothing to report exactly if all lines are
grammatical. -/
theorem faults_parse_strict (source : Text) :
    List.Forall₂ Blames ((lines (ofSource source)).filter (· ∉ language))
        (parse .strict source).faults ∧
      ((parse .strict source).isOk ↔ ∀ l ∈ lines (ofSource source), l ∈ language) := by
  have hclosed := Closed.ofSource source
  have hblames : List.Forall₂ Blames ((lines (ofSource source)).filter (· ∉ language))
      (parse .strict source).faults := by
    rw [parse, hclosed.faults_parseTokens]
    apply forall₂_blames
    intro l hl
    obtain ⟨ws, e, hws, he, rfl⟩ := hclosed.exists_of_mem_lines hl
    exact exists_verdict hws he
  refine ⟨hblames, ?_⟩
  have hlength := hblames.length_eq
  rw [Parsed.isOk, List.isEmpty_iff_length_eq_zero, ← hlength, List.length_eq_zero_iff,
    List.filter_eq_nil_iff]
  simp

end Recipe.Line
