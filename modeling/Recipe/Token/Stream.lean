import Recipe.Lexeme

/-!
# Token streams

The tokens of a source, read one by one.  A stream may be read past its end,
where it answers with the closing token again (`read`), or up to its end, after
which there is nothing (`next?`).
-/

namespace Recipe.Token

/-- What is left of a source, and where it starts. -/
structure Stream where
  source : Text
  rest : Text
  place : Place
  /-- Whether `next?` has given the closing token. -/
  finished : Bool
deriving DecidableEq, Repr

namespace Stream

def ofText (source : Text) : Stream := ⟨source, source, .start, false⟩

/-- The next token, for ever: behind the last one stands the closing token. -/
def read (s : Stream) : Token × Stream :=
  let (gap, rest) := Lexeme.splitGap s.rest
  let (lexeme, rest) := Lexeme.split rest
  let place := s.place.after gap
  (lexeme.toToken place, { s with rest, place := place.after lexeme.text })

/-- The next token, up to the closing token and no further. -/
def next? (s : Stream) : Option (Token × Stream) :=
  if s.finished then none
  else
    let (token, s) := s.read
    some (token, { s with finished := token.kind = .textEnd })

/-- A bound on what `next?` can still give. -/
def bound (s : Stream) : Nat := if s.finished then 0 else s.rest.length + 1

theorem bound_next?_lt {s s' : Stream} {t : Token} (h : s.next? = some (t, s')) :
    s'.bound < s.bound := by
  unfold next? at h
  split at h
  · simp at h
  · next hs =>
    simp only [read, Lexeme.toToken, Option.some.injEq, Prod.mk.injEq] at h
    obtain ⟨rfl, rfl⟩ := h
    by_cases hrest : (Lexeme.splitGap s.rest).2 = []
    · have hend := Lexeme.kind_split_eq_textEnd_iff.2 hrest
      simp [bound, hs, hend]
    · have hlt := Lexeme.length_split_lt hrest
      have hle := Lexeme.length_splitGap_le s.rest
      simp only [bound, hs, Lexeme.kind_split_eq_textEnd_iff, hrest]
      simp only [decide_false, Bool.false_eq_true, ↓reduceIte]
      omega

/-- All that `next?` gives, and the stream it leaves. -/
def drain (s : Stream) : List Token × Stream :=
  match h : s.next? with
  | none => ([], s)
  | some (token, s') =>
    have := bound_next?_lt h
    let (tokens, s'') := drain s'
    (token :: tokens, s'')
termination_by s.bound

end Stream

/-- The tokens of a source, the closing one last. -/
def ofSource (source : Text) : List Token := (Stream.ofText source).drain.1

end Recipe.Token
