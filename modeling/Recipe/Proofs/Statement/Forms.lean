import Mathlib.Data.List.Forall2
import Recipe.Proofs.Statement.Steps

/-!
# The statements that tokens form

`Forms` says, form by form, which tokens make up which statement.  A grammar
gives exactly these statements: what it takes from a feed forms the statement
that it gives (`Grammar.forms_of_statement`), and where tokens that form a
statement are followed by an end of line, it gives that statement
(`Grammar.statement_of_forms`).
-/

namespace Recipe

/-- Whether the tokens are words that spell the flags. -/
def FormFlags : List Token → List Flag → Prop :=
  List.Forall₂ fun t flag => t.kind = .word ∧ t.flag? = some flag

/-- The tokens of a line, without its end, form the statement. -/
inductive Forms : List Token → Statement → Prop where
  | comment {h value : Token} : h.kind = .hash → value.kind = .word →
      Forms [h, value] (.comment value.identifier (h.span.merge value.span))
  | fromImage {h source : Token} {ts : List Token} {flags : List Flag} :
      h.kind = .keyword .fromImage → FormFlags ts flags → source.IsSource →
      Forms (h :: (ts ++ [source]))
        (.fromImage flags source.identifier none (h.span.merge source.span))
  | stage {h source as stage : Token} {ts : List Token} {flags : List Flag} :
      h.kind = .keyword .fromImage → FormFlags ts flags → source.IsSource →
      as.kind = .keyword .asName → stage.kind = .word →
      Forms (h :: (ts ++ [source, as, stage]))
        (.fromImage flags source.identifier (some stage.identifier) (h.span.merge stage.span))
  | /-- `ARG name=value` -/
    argEquals {h word : Token} {name value : Text} :
      h.kind = .keyword .arg → word.kind = .word → word.literal.cut? '=' = some (name, value) →
      Forms [h, word]
        (.arg word.identifier name.unescape (some value.unescape) none (h.span.merge word.span))
  | /-- `ARG name value` -/
    argPair {h word value : Token} :
      h.kind = .keyword .arg → word.IsName → value.kind = .word →
      Forms [h, word, value]
        (.arg word.identifier word.literal.unescape (some value.literal.unescape)
          (some value.identifier) (h.span.merge value.span))
  | /-- `ARG name` -/
    argName {h word : Token} :
      h.kind = .keyword .arg → word.IsName →
      Forms [h, word]
        (.arg word.identifier word.literal.unescape none none (h.span.merge word.span))
  | copy {h source dest : Token} {ts : List Token} {flags : List Flag} :
      h.kind = .keyword .copy → FormFlags ts flags → source.IsSource → dest.kind = .word →
      Forms (h :: (ts ++ [source, dest]))
        (.copy flags source.identifier dest.identifier (h.span.merge dest.span))
  | other {h : Token} {k : Keyword} {ts : List Token} :
      h.kind = .keyword k → h.IsOther → (∀ t ∈ ts, t.IsPiece) →
      Forms (h :: ts) (.other k (ts.map Token.word) (h.span.merge (ts.getLastD h).span))

/-- A statement covers its tokens. -/
theorem Forms.span_eq {h : Token} {ts : List Token} {s : Statement} (hforms : Forms (h :: ts) s) :
    s.span = h.span.merge (ts.getLastD h).span := by
  cases hforms with
  | fromImage | stage | copy =>
    rw [List.getLastD_eq_getLast?, List.getLast?_append_of_ne_nil _ (List.cons_ne_nil _ _)]
    rfl
  | _ => rfl

/-! ## What a grammar gives is formed by what it takes -/

namespace Grammar

variable {f rest : Feed} {t : Token}

theorem tokens_of_expect {kind : Kind} (hkind : kind ≠ .textEnd)
    (h : expect kind f = .ok (t, rest)) : t.kind = kind ∧ f.tokens = t :: rest.tokens := by
  obtain ⟨hhead, rfl, rfl⟩ := expect_eq_ok_iff.mp h
  refine ⟨hhead, ?_⟩
  obtain ⟨_ | ⟨t, ts⟩, u⟩ := f
  · exact absurd hhead.symm hkind
  · rfl

theorem tokens_of_accept? {kind : Kind} {t? : Option Token} (hkind : kind ≠ .textEnd)
    (h : accept? kind f = .ok (t?, rest)) :
    (t? = none ∧ rest = f) ∨ ∃ t, t? = some t ∧ t.kind = kind ∧ f.tokens = t :: rest.tokens := by
  unfold accept? at h
  split at h
  · rename_i hhead
    cases h
    right
    obtain ⟨_ | ⟨t, ts⟩, u⟩ := f
    · exact absurd hhead.symm hkind
    · exact ⟨t, rfl, hhead, rfl⟩
  · cases h
    left
    exact ⟨rfl, rfl⟩

theorem formFlags_of_flags {o : Options} {word source : Token} {fs : List Flag}
    (hword : word.kind = .word) (h : flags o word f = .ok ((fs, source), rest)) :
    ∃ ts, word :: f.tokens = ts ++ source :: rest.tokens ∧ FormFlags ts fs ∧
      source.IsSource := by
  fun_induction flags o word f generalizing fs source rest with
  | case1 word f hbody =>
    cases h
    exact ⟨[], rfl, .nil, Token.isSource_iff.mpr ⟨hword, hbody⟩⟩
  | case5 word f _ flag hflag next rest' hnext _ fs' source' rest'' hflags ih =>
    cases h
    obtain ⟨hkind, htokens⟩ := tokens_of_expect (by simp) hnext
    obtain ⟨ts, hts, hfs, hsource⟩ := ih hkind hflags
    exact ⟨word :: ts, by rw [htokens, hts, List.cons_append], .cons ⟨hword, hflag⟩ hfs, hsource⟩
  | _ => cases h

theorem tokens_of_words {ws : List Token} (h : words f = .ok (ws, rest)) :
    f.tokens = ws ++ rest.tokens ∧ ∀ t ∈ ws, t.IsPiece := by
  unfold words at h
  split at h
  · cases h
  · rename_i hfind
    cases h
    refine ⟨List.takeWhile_append_dropWhile.symm, fun t ht => ⟨?_, ?_⟩⟩
    · simpa using List.find?_eq_none.mp hfind t ht
    · simpa using List.all_eq_true.mp List.all_takeWhile t ht

section Forms

variable {o : Options} {h : Token} {s : Statement}

theorem forms_of_comment (hh : h.kind = .hash) (hread : comment h f = .ok (s, rest)) :
    ∃ ts, f.tokens = ts ++ rest.tokens ∧ Forms (h :: ts) s := by
  obtain ⟨value, r, hexpect, hpure⟩ := exists_of_bind hread
  obtain ⟨hvalue, hf⟩ := tokens_of_expect (by simp) hexpect
  cases hpure
  exact ⟨[value], hf, .comment hh hvalue⟩

/-- What takes a word and flags behind it takes them from the feed in order. -/
theorem formFlags_of_expect {fs : List Flag} {source : Token}
    (hread : (expect .word >>= flags o) f = .ok ((fs, source), rest)) :
    ∃ ts, f.tokens = ts ++ source :: rest.tokens ∧ FormFlags ts fs ∧ source.IsSource := by
  obtain ⟨word, r, hexpect, hflags⟩ := exists_of_bind hread
  obtain ⟨hword, hf⟩ := tokens_of_expect (by simp) hexpect
  exact hf ▸ formFlags_of_flags hword hflags

theorem forms_of_fromImage (hh : h.kind = .keyword .fromImage)
    (hread : fromImage o h f = .ok (s, rest)) :
    ∃ ts, f.tokens = ts ++ rest.tokens ∧ Forms (h :: ts) s := by
  rw [fromImage, ← bind_assoc] at hread
  obtain ⟨⟨fs, source⟩, r, hflags, hbehind⟩ := exists_of_bind hread
  obtain ⟨ts, hf, hfs, hsource⟩ := formFlags_of_expect hflags
  obtain ⟨as?, r', haccept, hrest⟩ := exists_of_bind hbehind
  rcases tokens_of_accept? (by simp) haccept with ⟨rfl, rfl⟩ | ⟨as, rfl, has, hr⟩
  · cases hrest
    exact ⟨ts ++ [source], by rw [hf]; simp, .fromImage hh hfs hsource⟩
  · obtain ⟨stage, r'', hexpect, hpure⟩ := exists_of_bind hrest
    obtain ⟨hstage, hr'⟩ := tokens_of_expect (by simp) hexpect
    cases hpure
    exact ⟨ts ++ [source, as, stage], by rw [hf, hr, hr']; simp, .stage hh hfs hsource has hstage⟩

theorem forms_of_arg (hh : h.kind = .keyword .arg) (hread : arg h f = .ok (s, rest)) :
    ∃ ts, f.tokens = ts ++ rest.tokens ∧ Forms (h :: ts) s := by
  obtain ⟨word, r, hexpect, hbehind⟩ := exists_of_bind hread
  obtain ⟨hword, hf⟩ := tokens_of_expect (by simp) hexpect
  cases hcut : word.literal.cut? '=' with
  | some p =>
    rw [hcut] at hbehind
    cases hbehind
    exact ⟨[word], hf, .argEquals hh hword hcut⟩
  | none =>
    have hname : word.IsName := Token.isName_iff.mpr ⟨hword, hcut⟩
    rw [hcut] at hbehind
    obtain ⟨value?, r', haccept, hpure⟩ := exists_of_bind hbehind
    rcases tokens_of_accept? (by simp) haccept with ⟨rfl, rfl⟩ | ⟨value, rfl, hvalue, hr⟩
    · cases hpure
      exact ⟨[word], hf, .argName hh hname⟩
    · cases hpure
      exact ⟨[word, value], by rw [hf, hr]; rfl, .argPair hh hname hvalue⟩

theorem forms_of_copy (hh : h.kind = .keyword .copy) (hread : copy o h f = .ok (s, rest)) :
    ∃ ts, f.tokens = ts ++ rest.tokens ∧ Forms (h :: ts) s := by
  rw [copy, ← bind_assoc] at hread
  obtain ⟨⟨fs, source⟩, r, hflags, hbehind⟩ := exists_of_bind hread
  obtain ⟨ts, hf, hfs, hsource⟩ := formFlags_of_expect hflags
  obtain ⟨dest, r', hexpect, hpure⟩ := exists_of_bind hbehind
  obtain ⟨hdest, hr⟩ := tokens_of_expect (by simp) hexpect
  cases hpure
  exact ⟨ts ++ [source, dest], by rw [hf, hr]; simp, .copy hh hfs hsource hdest⟩

theorem forms_of_other {k : Keyword} (hh : h.kind = .keyword k) (hother : h.IsOther)
    (hread : other k h f = .ok (s, rest)) :
    ∃ ts, f.tokens = ts ++ rest.tokens ∧ Forms (h :: ts) s := by
  obtain ⟨ws, r, hwords, hpure⟩ := exists_of_bind hread
  obtain ⟨htokens, hpieces⟩ := tokens_of_words hwords
  cases hpure
  exact ⟨ws, htokens, .other hh hother hpieces⟩

/-- **Grammars are sound**: the head and the tokens that a grammar takes form
the statement that it gives. -/
theorem forms_of_statement (hread : statement o h f = .ok (s, rest)) :
    ∃ ts, f.tokens = ts ++ rest.tokens ∧ Forms (h :: ts) s := by
  rcases statement_cases o h with ⟨hh, heq⟩ | ⟨hh, heq⟩ | ⟨hh, heq⟩ | ⟨hh, heq⟩ |
    ⟨k, hh, hother, heq⟩ | ⟨-, -, heq⟩
  · exact forms_of_comment hh (heq ▸ hread)
  · exact forms_of_fromImage hh (heq ▸ hread)
  · exact forms_of_arg hh (heq ▸ hread)
  · exact forms_of_copy hh (heq ▸ hread)
  · exact forms_of_other hh hother (heq ▸ hread)
  · rw [heq] at hread
    cases hread

end Forms

/-! ## Where tokens form a statement, it is read -/

section Complete

variable {o : Options} {h e u : Token} {ts us : List Token} {s : Statement}

/-- Words that spell flags are read as these flags, up to the word behind
them. -/
theorem flags_append {source : Token} {fs : List Flag} (hfs : FormFlags ts fs)
    (hsource : source.IsSource) :
    (expect .word >>= flags o) ⟨ts ++ source :: us, u⟩ = .ok ((fs, source), ⟨us, u⟩) := by
  induction hfs with
  | nil =>
    obtain ⟨hword, hbody⟩ := Token.isSource_iff.mp hsource
    rw [List.nil_append, bind_of_ok (expect_cons hword), flags_of_body?_isNone hbody]
    rfl
  | @cons t flag ts fs ht hfs ih =>
    rw [List.cons_append, bind_of_ok (expect_cons ht.1), flags_of_flag?_eq_some ht.2, ← bind_assoc,
      bind_of_ok ih]
    rfl

theorem words_append (hts : ∀ t ∈ ts, t.IsPiece) (he : e.kind.isLineEnd) :
    words ⟨ts ++ e :: us, u⟩ = .ok (ts, ⟨e :: us, u⟩) := by
  have hline : Token.InLine ts := fun t ht => (hts t ht).2
  have hfind : ts.find? (fun t => t.kind = .illegal) = none := by
    rw [List.find?_eq_none]
    intro t ht
    simpa using (hts t ht).1
  rw [words, Feed.line_append hline he, hfind, Feed.skipLine_append hline he]

/-- A word behind the name is taken for its value, whatever follows. -/
theorem statement_of_argPair {word value : Token} (hh : h.kind = .keyword .arg)
    (hname : word.IsName) (hvalue : value.kind = .word) :
    statement o h ⟨word :: value :: us, u⟩ =
      .ok (.arg word.identifier word.literal.unescape (some value.literal.unescape)
        (some value.identifier) (h.span.merge value.span), ⟨us, u⟩) := by
  obtain ⟨hword, hcut⟩ := Token.isName_iff.mp hname
  rw [statement_of_arg hh, arg]
  refine (bind_of_ok (expect_cons hword)).trans ?_
  rw [hcut]
  exact bind_of_ok (accept?_cons hvalue)

/-- **Grammars are complete**: where tokens that form a statement stand in front
of an end of line, the grammar of the first one gives the statement. -/
theorem statement_of_forms (hforms : Forms (h :: ts) s) (he : e.kind.isLineEnd) :
    statement o h ⟨ts ++ e :: us, u⟩ = .ok (s, ⟨e :: us, u⟩) := by
  have hnot {k : Kind} (hk : k.isLineEnd = false) : e.kind ≠ k := by
    rintro rfl
    rw [hk] at he
    cases he
  cases hforms with
  | comment hh hvalue =>
    rw [statement_of_hash hh, comment]
    exact bind_of_ok (expect_cons hvalue)
  | fromImage hh hfs hsource =>
    rw [statement_of_fromImage hh, fromImage, ← bind_assoc, List.append_assoc]
    rw [List.singleton_append, bind_of_ok (flags_append hfs hsource)]
    exact bind_of_ok (accept?_cons_of_ne (hnot rfl))
  | stage hh hfs hsource has hstage =>
    rw [statement_of_fromImage hh, fromImage, ← bind_assoc, List.append_assoc]
    rw [List.cons_append, bind_of_ok (flags_append hfs hsource)]
    exact (bind_of_ok (accept?_cons has)).trans (bind_of_ok (expect_cons hstage))
  | argEquals hh hword hcut =>
    rw [statement_of_arg hh, arg]
    refine (bind_of_ok (expect_cons hword)).trans ?_
    rw [hcut]
    rfl
  | argPair hh hname hvalue => exact statement_of_argPair hh hname hvalue
  | argName hh hname =>
    obtain ⟨hword, hcut⟩ := Token.isName_iff.mp hname
    rw [statement_of_arg hh, arg]
    refine (bind_of_ok (expect_cons hword)).trans ?_
    rw [hcut]
    exact bind_of_ok (accept?_cons_of_ne (hnot rfl))
  | copy hh hfs hsource hdest =>
    rw [statement_of_copy hh, copy, ← bind_assoc, List.append_assoc]
    rw [List.cons_append, bind_of_ok (flags_append hfs hsource)]
    exact bind_of_ok (expect_cons hdest)
  | other hh hother hts =>
    rw [statement_of_other hh hother, other]
    exact bind_of_ok (words_append hts he)

end Complete

end Grammar

/-- The first token of a statement does not end a line. -/
theorem Forms.not_isLineEnd {h : Token} {ts : List Token} {s : Statement}
    (hforms : Forms (h :: ts) s) : ¬ h.kind.isLineEnd := by
  cases hforms <;> simp [*, Kind.isLineEnd]

namespace Forms

variable {h e u : Token} {ts us : List Token} {s : Statement}

/-- A reader that does not drop the line unread finds the statement in it, and
nothing to report. -/
theorem readLine_eq {o : Options} (hforms : Forms (h :: ts) s) (hdrops : ¬ o.drops h.kind)
    (he : e.kind.isLineEnd) :
    Feed.readLine o ⟨h :: (ts ++ e :: us), u⟩ = ⟨some s, none, ⟨e :: us, u⟩⟩ := by
  rw [Feed.readLine_cons hforms.not_isLineEnd hdrops, Grammar.statement_of_forms hforms he]
  exact if_pos he

theorem readLine (hforms : Forms (h :: ts) s) (he : e.kind.isLineEnd) :
    Feed.readLine .strict ⟨h :: (ts ++ e :: us), u⟩ = ⟨some s, none, ⟨e :: us, u⟩⟩ :=
  hforms.readLine_eq (by simp [Options.drops_strict]) he

/-- The words of a line without a grammar are as many as the tokens behind its
head. -/
theorem length_words {k : Keyword} {ws : List Word} {span : Span}
    (hforms : Forms (h :: ts) (.other k ws span)) : ws.length = ts.length := by
  cases hforms with
  | other => exact List.length_map _

/-- The head of a line without a grammar may have any pieces behind it. -/
theorem exists_other {k : Keyword} {ws : List Word} {span : Span}
    (hforms : Forms (h :: ts) (.other k ws span)) (hus : ∀ t ∈ us, t.IsPiece) :
    ∃ span', Forms (h :: us) (.other k (us.map Token.word) span') := by
  cases hforms with
  | other hh hother _ => exact ⟨_, .other hh hother hus⟩

end Forms

/-- No statement starts with a word. -/
theorem Feed.fault?_readLine_of_word {t u : Token} {ts : List Token} (ht : t.kind = .word) :
    (readLine .strict ⟨t :: ts, u⟩).fault? = some (.unexpectedStart t) := by
  have hstatement : Grammar.statement .strict t =
      fun _ => .error (some (.unexpectedStart t)) := by
    apply Grammar.statement_of_unexpected
    · simp [ht]
    · simp [ht]
  rw [readLine_strict (by simp [ht, Kind.isLineEnd]), hstatement, reading]

end Recipe
