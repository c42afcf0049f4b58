import Recipe.Proofs.Lexeme.Sequence

/-!
# Two ways to read one stream

A stream is asked for its next token by `Stream.read`, which always gives one,
or by `Stream.next?`, which gives none once it has given the closing token.
Both take what they give from the same place: however the calls follow each
other, their answers are the tokens of the source in their order, and copies of
the closing token behind them.  Only a call of `next?`  tells a stream that it
has ended.

## How the proof goes

`Stream.unread` lists the tokens that a stream has still to give.  One step:
`Stream.unread_cases` says what a reading takes from them.  It takes the first
one, but the closing token stays where it is, since behind it there is an empty
rest and the same place.  A run: `Stream.answers_isPrefix`, by induction on the
calls.
-/

namespace Recipe.Token.Stream

/-- The ways to ask a stream for its next token. -/
inductive Call where
  | read
  | next
deriving DecidableEq, Repr

/-- What a stream answers to a call, and what is left of it. -/
def answer (s : Stream) : Call → Option Token × Stream
  | .read => (some s.read.1, s.read.2)
  | .next =>
    match s.next? with
    | none => (none, s)
    | some (t, s') => (some t, s')

/-- Calls one after another, each with its answer. -/
def transcript (s : Stream) : List Call → List (Call × Option Token)
  | [] => []
  | c :: cs => (c, (s.answer c).1) :: (s.answer c).2.transcript cs

/-- The tokens that calls are answered with. -/
def answers (ts : List (Call × Option Token)) : List Token := ts.filterMap Prod.snd

/-- The tokens that a stream has not given yet. -/
def unread (s : Stream) : List Token := placed s.place (Lexeme.sequence s.rest)

theorem unread_ofText (source : Text) : (ofText source).unread = ofSource source :=
  (ofSource_eq_placed source).symm

/-! ## One call -/

/-- **A reading takes the first token**, but for the closing one, which it can
take again and again. -/
theorem unread_cases (s : Stream) :
    (s.read.1.kind ≠ .textEnd ∧ s.unread = s.read.1 :: s.read.2.unread) ∨
      (s.read.1.kind = .textEnd ∧ s.unread = [s.read.1] ∧ s.read.2.unread = [s.read.1]) := by
  by_cases h : (Lexeme.splitGap s.rest).2 = []
  · right
    have hread : s.read.2.rest = [] := by simp [read, h, Lexeme.split]
    have hplace : s.read.2.place = s.place.after (Lexeme.splitGap s.rest).1 := by
      simp [read, h, Lexeme.split, Lexeme.verbatim]
    refine ⟨?_, ?_, ?_⟩
    · simp [read, h, Lexeme.split, Lexeme.verbatim, Lexeme.toToken]
    · rw [unread, Lexeme.sequence_of_splitGap_eq_nil h]
      simp [read, h, Lexeme.split, placed]
    · rw [unread, hread, hplace, Lexeme.sequence_of_splitGap_eq_nil rfl]
      simp [read, h, Lexeme.split, placed, Lexeme.splitGap]
  · left
    refine ⟨mt Lexeme.kind_split_eq_textEnd_iff.mp h, ?_⟩
    rw [unread, Lexeme.sequence_of_splitGap_ne_nil h]
    rfl

theorem unread_ne_nil (s : Stream) : s.unread ≠ [] := by
  rcases s.unread_cases with ⟨-, hs⟩ | ⟨-, hs, -⟩
  all_goals simp [hs]

/-- A stream that has given its closing token to `next?`  answers none to it,
and every other call reads on. -/
theorem answer_cases (s : Stream) (c : Call) :
    (c = .next ∧ s.finished ∧ s.answer c = (none, s)) ∨
      ((c = .next → ¬ s.finished) ∧ (s.answer c).1 = some s.read.1 ∧
        (s.answer c).2.unread = s.read.2.unread ∧
        ((s.answer c).2.finished ↔ s.finished ∨ c = .next ∧ s.read.1.kind = .textEnd)) := by
  have hfinished : s.read.2.finished = s.finished := rfl
  cases c with
  | read => simp [answer, hfinished]
  | next =>
    by_cases h : s.finished
    · simp [answer, next?, h]
    · simp [answer, next?, h, unread]

/-! ## Many calls -/

theorem map_fst_transcript (s : Stream) (cs : List Call) :
    (s.transcript cs).map Prod.fst = cs := by
  induction cs generalizing s with
  | nil => rfl
  | cons c cs ih => rw [transcript, List.map_cons, ih]

/-- `read` is always answered. -/
theorem read_notMem_transcript (s : Stream) (cs : List Call) :
    (.read, none) ∉ s.transcript cs := by
  induction cs generalizing s with
  | nil => exact List.not_mem_nil
  | cons c cs ih =>
    rw [transcript, List.mem_cons, not_or]
    refine ⟨?_, ih _⟩
    rcases s.answer_cases c with ⟨rfl, -, -⟩ | ⟨-, hanswer, -⟩
    · simp
    · simp [hanswer]

/-- **The answers are the tokens in their order**, and the closing one for
ever. -/
theorem answers_isPrefix {s : Stream} {us : List Token} {e : Token}
    (h : s.unread = us ++ [e]) (cs : List Call) :
    answers (s.transcript cs) <+: s.unread ++ List.replicate cs.length e := by
  induction cs generalizing s us with
  | nil => exact List.nil_prefix
  | cons c cs ih =>
    have hmore (ts : List Token) :
        ts ++ List.replicate cs.length e <+: ts ++ List.replicate (c :: cs).length e := by
      rw [List.length_cons, List.replicate_succ', ← List.append_assoc]
      exact List.prefix_append _ _
    rcases s.answer_cases c with ⟨-, -, hanswer⟩ | ⟨-, hanswer, hunread, -⟩
    · rw [transcript, hanswer]
      exact (ih h).trans (hmore _)
    have hgiven : answers (s.transcript (c :: cs)) =
        s.read.1 :: answers ((s.answer c).2.transcript cs) := by
      rw [transcript, hanswer]
      rfl
    rw [hgiven]
    rcases s.unread_cases with ⟨-, hs⟩ | ⟨-, hs, hread⟩
    · -- The token is given once, and the others are left.
      rw [← hunread] at hs
      cases us with
      | nil => exact absurd (List.cons.inj (hs.symm.trans h)).2 (unread_ne_nil _)
      | cons t us =>
        have hleft := (List.cons.inj (hs.symm.trans h)).2
        rw [hs, List.cons_append, List.prefix_cons_inj]
        exact (ih hleft).trans (hmore _)
    · -- The closing token is given, and it is left.
      obtain ⟨rfl, rfl⟩ : us = [] ∧ e = s.read.1 := List.append_singleton_inj.mp (h.symm.trans hs)
      have hleft : (s.answer c).2.unread = [] ++ [s.read.1] := hunread.trans hread
      have hrest := ih hleft
      rw [hleft] at hrest
      rw [hs, List.singleton_append, List.prefix_cons_inj]
      exact hrest

/-- **What ends a stream** for `next?`  is a call of it that has given the
closing token. -/
theorem eq_none_iff_of_transcript {s : Stream} {cs : List Call} {t? : Option Token}
    {before behind : List (Call × Option Token)}
    (h : s.transcript cs = before ++ (.next, t?) :: behind) :
    t? = none ↔ s.finished ∨ ∃ t, (.next, some t) ∈ before ∧ t.kind = .textEnd := by
  induction cs generalizing s before with
  | nil => simp [transcript] at h
  | cons c cs ih =>
    rw [transcript] at h
    cases before with
    | nil =>
      obtain ⟨rfl, hanswer⟩ := Prod.mk.inj (List.cons.inj h).1
      rcases s.answer_cases .next with ⟨-, hfinished, hnone⟩ | ⟨hfinished, hsome, -⟩
      · simp [← hanswer, hnone, hfinished]
      · simp [← hanswer, hsome, hfinished]
    | cons entry before =>
      obtain ⟨rfl, hbehind⟩ := List.cons.inj h
      rw [ih hbehind]
      rcases s.answer_cases c with ⟨rfl, hfinished, hnone⟩ | ⟨-, hsome, -, hfinished⟩
      · simp [hnone, hfinished]
      · rw [hfinished, hsome]
        simp only [List.mem_cons, Prod.mk.injEq, Option.some.injEq]
        grind

/-- **One sequence of tokens for both ways of reading.**  Whatever calls are
made on a stream, in whatever order, each of them has its answer; the tokens
given are the first of the tokens of the source and copies of the closing one
behind these, place and all; `read` always gives a token; and `next?`  gives
none exactly if it has given the closing token before, whatever `read` has
given. -/
theorem transcript_ofText (source : Text) (cs : List Call) :
    let ts := (ofText source).transcript cs
    ts.map Prod.fst = cs ∧
      (∃ us e, ofSource source = us ++ [e] ∧ e.kind = .textEnd ∧
        answers ts <+: ofSource source ++ List.replicate cs.length e) ∧
      (.read, none) ∉ ts ∧
      ∀ before t? behind, ts = before ++ (.next, t?) :: behind →
        (t? = none ↔ ∃ t, (.next, some t) ∈ before ∧ t.kind = .textEnd) := by
  intro ts
  obtain ⟨us, e, hsource, he, -⟩ := exists_ofSource_eq_append source
  have hunread := (unread_ofText source).trans hsource
  refine ⟨map_fst_transcript _ cs, ⟨us, e, hsource, he, ?_⟩, read_notMem_transcript _ cs, ?_⟩
  · rw [← unread_ofText]
    exact answers_isPrefix hunread cs
  · intro before t? behind hts
    rw [eq_none_iff_of_transcript hts]
    exact or_iff_right Bool.false_ne_true

/-- The closing token is given to `read` twice, then to `next?`  once, and to
`read` again. -/
example :
    (answers ((ofText "a ".toList).transcript [.next, .read, .read, .next, .next, .read])).map
        (fun t => (t.kind, t.span)) =
      [(.word, ⟨0, 1⟩), (.textEnd, ⟨2, 2⟩), (.textEnd, ⟨2, 2⟩), (.textEnd, ⟨2, 2⟩),
        (.textEnd, ⟨2, 2⟩)] := by
  decide +kernel

end Recipe.Token.Stream
