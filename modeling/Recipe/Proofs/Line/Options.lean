import Recipe.Proofs.Line.Basic
import Recipe.Proofs.Statement.Forms

/-!
# What the options change

Options choose which statements are kept and which faults are reported, and
nothing else: a recipe is read as a strict reader reads it, with the statements
that are not kept and the faults that are not reported left out.

## How the proof goes

A grammar takes the same tokens under all options and refuses the same ones, but
its refusal may be silent; `Grammar.Mutes` says so combinator by combinator.  A
line that is dropped unread would be read as a statement that is not kept, or
refused with a fault that is not reported (`Feed.readLine_eq_filter`).  As every
line is read up to its end in any case, the two readers stay together from line
to line.
-/

namespace Recipe

namespace Options

variable (o : Options)

/-- Whether a statement of this form is kept. -/
def keeps : Statement → Bool
  | .other .. => o.keepOther
  | _ => true

/-- Whether a fault with this cause is reported. -/
def reports (f : Fault) : Bool :=
  match f.cause with
  | .malformedFlag _ => o.reportMalformedFlags
  | .illegalToken _ => o.keepOther
  | _ => true

variable {o}

/-- Lines are dropped unread if they have no grammar and are not to be kept. -/
theorem drops_iff {t : Token} : o.drops t.kind ↔ t.IsOther ∧ o.keepOther = false := by
  cases hkind : t.kind with
  | keyword k =>
    rw [Token.isOther_iff hkind]
    cases k <;> simp [drops]
  | _ =>
    have hother : ¬ t.IsOther := Token.not_isOther (by simp [hkind])
    simp [drops, hother]

/-- What is not dropped unread is kept. -/
theorem keeps_of_forms {h : Token} {ts : List Token} {s : Statement} (hforms : Forms (h :: ts) s)
    (hdrops : ¬ o.drops h.kind) : o.keeps s := by
  cases hforms with
  | other hh hother _ =>
    rw [drops_iff] at hdrops
    simpa [keeps, hother] using hdrops
  | _ => rfl

end Options

namespace Grammar

variable {α β : Type} {o : Options}

/-- The outcome with a refusal made silent that the options do not report. -/
def mute (o : Options) (x : Except Refusal α) : Except Refusal α :=
  x.mapError (Option.filter o.reports)

/-- The second grammar is the first one, but for what the options do not
report. -/
def Mutes (o : Options) (g h : Grammar α) : Prop := ∀ f, h f = mute o (g f)

namespace Mutes

theorem pure (a : α) : Mutes o (Pure.pure a) (Pure.pure a) := fun _ => rfl

theorem bind_apply {g h : Grammar α} {k l : α → Grammar β} {f : Feed} (hgh : h f = mute o (g f))
    (hkl : ∀ a r, g f = .ok (a, r) → l a r = mute o (k a r)) :
    (h >>= l) f = mute o ((g >>= k) f) := by
  cases hg : g f with
  | error e =>
    rw [hg] at hgh
    rw [bind_of_error hg, bind_of_error hgh]
    rfl
  | ok p =>
    rw [hg] at hgh
    rw [bind_of_ok hg, bind_of_ok hgh]
    exact hkl p.1 p.2 hg

theorem bind {g h : Grammar α} {k l : α → Grammar β} (hgh : Mutes o g h)
    (hkl : ∀ a, Mutes o (k a) (l a)) : Mutes o (g >>= k) (h >>= l) :=
  fun f => bind_apply (hgh f) fun a r _ => hkl a r

theorem expect (kind : Kind) : Mutes o (expect kind) (expect kind) := by
  intro f
  unfold Grammar.expect
  split <;> rfl

theorem accept? (kind : Kind) : Mutes o (accept? kind) (accept? kind) := by
  intro f
  unfold Grammar.accept?
  split <;> rfl

theorem flags (word : Token) : Mutes o (flags .strict word) (flags o word) := by
  intro f
  induction word, f using flags_induction with
  | stop word f hbody =>
    rw [flags_of_body?_isNone hbody, flags_of_body?_isNone hbody]
    rfl
  | stray word f hbody hflag =>
    rw [flags_of_flag?_eq_none hbody hflag, flags_of_flag?_eq_none hbody hflag]
    rfl
  | flag word f flag hflag ih =>
    rw [flags_of_flag?_eq_some hflag, flags_of_flag?_eq_some hflag]
    refine bind_apply (expect .word f) fun next r hnext => ?_
    exact bind_apply (ih next r hnext) fun _ _ _ => rfl

theorem words (hkeep : o.keepOther) : Mutes o words words := by
  intro f
  unfold Grammar.words
  split
  · rename_i t _
    have hreport : o.reports (.illegalToken t) := hkeep
    exact congrArg Except.error (Option.filter_some_pos hreport).symm
  · rfl

theorem comment (head : Token) : Mutes o (comment head) (comment head) :=
  (expect .word).bind fun _ => pure _

theorem fromImage (head : Token) : Mutes o (fromImage .strict head) (fromImage o head) := by
  refine (expect .word).bind fun word => (flags word).bind fun p => (accept? _).bind fun as? => ?_
  cases as? with
  | none => exact pure _
  | some _ => exact (expect .word).bind fun _ => pure _

theorem arg (head : Token) : Mutes o (arg head) (arg head) := by
  refine (expect .word).bind fun word => ?_
  split
  · exact pure _
  · refine (accept? .word).bind fun value? => ?_
    cases value? <;> exact pure _

theorem copy (head : Token) : Mutes o (copy .strict head) (copy o head) :=
  (expect .word).bind fun word => (flags word).bind fun _ => (expect .word).bind fun _ => pure _

theorem other (hkeep : o.keepOther) (k : Keyword) (head : Token) :
    Mutes o (other k head) (other k head) :=
  (words hkeep).bind fun _ => pure _

/-- **Grammars under options**: where a line is not dropped unread, the options
decide on nothing but whether a refusal is reported. -/
theorem statement {head : Token} (hdrops : ¬ o.drops head.kind) :
    Mutes o (statement .strict head) (statement o head) := by
  rcases statement_cases o head with ⟨hh, heq⟩ | ⟨hh, heq⟩ | ⟨hh, heq⟩ | ⟨hh, heq⟩ |
    ⟨k, hh, hother, heq⟩ | ⟨hhash, hkeyword, heq⟩
  · rw [heq, statement_of_hash hh]
    exact comment head
  · rw [heq, statement_of_fromImage hh]
    exact fromImage head
  · rw [heq, statement_of_arg hh]
    exact arg head
  · rw [heq, statement_of_copy hh]
    exact copy head
  · have hkeep : o.keepOther := by
      rw [Options.drops_iff] at hdrops
      simpa [hother] using hdrops
    rw [heq, statement_of_other hh hother]
    exact other hkeep k head
  · rw [heq, statement_of_unexpected hhash hkeyword]
    exact fun _ => rfl

end Mutes

end Grammar

namespace Feed

variable {o : Options} {f : Feed}

/-- Nothing but a silent refusal tells a muted outcome from the outcome. -/
theorem reading_mute {x : Except Refusal (Statement × Feed)}
    (hkeep : ∀ s rest, x = .ok (s, rest) → o.keeps s) :
    (f.reading (Grammar.mute o x)).statement? = (f.reading x).statement?.filter o.keeps ∧
      (f.reading (Grammar.mute o x)).fault? = (f.reading x).fault?.filter o.reports := by
  cases x with
  | error refusal => exact ⟨rfl, rfl⟩
  | ok p =>
    obtain ⟨s, rest⟩ := p
    have hs := hkeep s rest rfl
    show (f.reading (.ok (s, rest))).statement? = _ ∧ (f.reading (.ok (s, rest))).fault? = _
    simp only [reading]
    split
    · exact ⟨(Option.filter_some_pos hs).symm, rfl⟩
    · exact ⟨(Option.filter_some_pos hs).symm, rfl⟩

/-- A line without a grammar is kept whole or refused for an illegal token. -/
theorem reading_other (f : Feed) (k : Keyword) (head : Token) (r : Feed) :
    (∃ t, f.reading (Grammar.other k head r) = ⟨none, some (.illegalToken t), f.skipLine⟩) ∨
      ∃ ws span,
        f.reading (Grammar.other k head r) = ⟨some (.other k ws span), none, r.skipLine⟩ := by
  cases hfind : r.line.find? (·.kind = .illegal) with
  | some t =>
    left
    have hwords : Grammar.words r = .error (some (.illegalToken t)) := by
      rw [Grammar.words, hfind]
    rw [Grammar.other, Grammar.bind_of_error hwords]
    exact ⟨t, rfl⟩
  | none =>
    right
    have hwords : Grammar.words r = .ok (r.line, r.skipLine) := by
      rw [Grammar.words, hfind]
    rw [Grammar.other, Grammar.bind_of_ok hwords]
    exact ⟨_, _, if_pos r.isLineEnd_head_skipLine⟩

/-- **One line under options**: its statement if that is kept, and its fault if
that is reported. -/
theorem readLine_eq_filter (o : Options) (f : Feed) :
    (f.readLine o).statement? = (f.readLine .strict).statement?.filter o.keeps ∧
      (f.readLine o).fault? = (f.readLine .strict).fault?.filter o.reports := by
  by_cases hfeed : f.head.kind = .lineFeed
  · simp [readLine, hfeed]
  have hstrict := readLine_eq_reading (o := .strict) hfeed (by simp [Options.drops_strict])
  by_cases hdrops : o.drops f.head.kind
  · obtain ⟨hother, hkeep⟩ := Options.drops_iff.mp hdrops
    obtain ⟨k, hk⟩ : ∃ k, f.head.kind = .keyword k := hother.imp fun _ h => h.1
    have hread : f.readLine o = ⟨none, none, f.skipLine⟩ := by
      rw [readLine, if_neg hfeed, if_pos hdrops]
    rw [hread, hstrict, Grammar.statement_of_other hk hother]
    rcases f.reading_other k f.head f.tail with ⟨t, heq⟩ | ⟨ws, span, heq⟩
    · have hsilent : o.reports (.illegalToken t) = false := hkeep
      rw [heq]
      exact ⟨rfl, (Option.filter_some_neg hsilent).symm⟩
    · have hlost : o.keeps (.other k ws span) = false := hkeep
      rw [heq]
      exact ⟨(Option.filter_some_neg hlost).symm, rfl⟩
  · rw [readLine_eq_reading hfeed hdrops, hstrict, Grammar.Mutes.statement hdrops]
    apply reading_mute
    intro s rest hread
    obtain ⟨ts, -, hforms⟩ := Grammar.forms_of_statement hread
    exact Options.keeps_of_forms hforms hdrops

/-- **Line by line under options**: what is kept and reported of the strict
reading, and the same feed behind it. -/
theorem readLines_eq_filter (o : Options) (f : Feed) :
    readLines o f =
      ((readLines .strict f).1.filter o.keeps, (readLines .strict f).2.1.filter o.reports,
        (readLines .strict f).2.2) := by
  induction f using lines_induction with
  | stop f h =>
    rw [readLines_of_textEnd h, readLines_of_textEnd h]
    rfl
  | line f h ih =>
    obtain ⟨hstatement, hfault⟩ := readLine_eq_filter o f
    rw [readLines_of_ne_textEnd h, readLines_of_ne_textEnd h, ih, hstatement, hfault,
      List.filter_append, List.filter_append, Option.toList_filter, Option.toList_filter]

end Feed

/-- **What the options change**: the statements are those of a strict reading
without the ones that are not kept, the faults are those without the ones that
are not reported, and the directives are the comments in front of all other
statements that are left. -/
theorem parseTokens_eq_filter_strict (o : Options) (ts : List Token) :
    let p := parseTokens o ts
    let q := parseTokens .strict ts
    p.program.toList = q.program.toList.filter o.keeps ∧
      p.faults = q.faults.filter o.reports ∧
        p.program.directives = p.program.toList.takeWhile Statement.isComment ∧
          q.program.directives = q.program.toList.takeWhile Statement.isComment := by
  intro p q
  have hread := Feed.readLines_eq_filter o (.ofList ts)
  refine ⟨?_, ?_, ?_, ?_⟩
  · rw [toList_parseTokens, toList_parseTokens, hread]
  · rw [faults_parseTokens, faults_parseTokens, hread]
  · exact (congrArg Program.directives (program_parseTokens o ts)).trans
      (Program.directives_ofStatements _)
  · exact (congrArg Program.directives (program_parseTokens .strict ts)).trans
      (Program.directives_ofStatements _)

end Recipe
