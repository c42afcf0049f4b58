import Recipe.Statement.Grammar

/-!
# Reading lines

A line is read by the grammar of the token at its head.  A line that breaks its
grammar yields a fault and no statement; a statement with more tokens behind it
is kept and yields a fault.  Either way the reading stops at the end of the line
(`Feed.rest_readLine`).
-/

namespace Recipe

/-- What a line yields, and the feed from its end on. -/
structure Reading where
  statement? : Option Statement
  fault? : Option Fault
  rest : Feed
deriving DecidableEq, Repr

namespace Feed

/-- Reads the line the feed stands in. -/
def readLine (o : Options) (f : Feed) : Reading :=
  if f.head.kind = .lineFeed then ⟨none, none, f⟩
  else if o.drops f.head.kind then ⟨none, none, f.skipLine⟩
  else
    match Grammar.statement o f.head f.tail with
    | .error refusal => ⟨none, refusal, f.skipLine⟩
    | .ok (s, rest) =>
      if rest.head.kind.isLineEnd then ⟨some s, none, rest⟩
      else ⟨some s, some (.unexpectedToken .lineFeed rest.head), rest.skipLine⟩

/-- A line is read up to its end and no further. -/
theorem rest_readLine (o : Options) (f : Feed) : (f.readLine o).rest = f.skipLine := by
  unfold readLine
  split
  · next h => exact (skipLine_of_isLineEnd (by rw [h]; rfl)).symm
  · next hfeed =>
    split
    · rfl
    · split
      · rfl
      · next s rest hread =>
        have hend : f.head.kind ≠ .textEnd := by
          intro h
          cases (Grammar.statement_of_textEnd h f.tail).symm.trans hread
        have hreach : f.Reaches rest :=
          (Reaches.tail (by simp [Kind.isLineEnd, hfeed, hend])).trans
            (Grammar.StaysInLine.statement o f.head hread)
        rw [hreach.skipLine_eq]
        split
        · next h => exact (skipLine_of_isLineEnd h).symm
        · rfl

end Feed

end Recipe
