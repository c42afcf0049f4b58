import Recipe.Number

/-!
# Spans

Byte ranges of a source.  A span given by hand may end before it starts; such a
span has no length.
-/

namespace Recipe

/-- The bytes from `start` up to, and not including, `stop`. -/
structure Span where
  start : Nat
  stop : Nat
deriving DecidableEq, Repr

namespace Span

/-- The empty span at the start of a source. -/
def zero : Span := ⟨0, 0⟩

/-- The span of the bytes from `start` up to `stop`, in numbers of 32 bits. -/
def ofBytes (start stop : Nat) : Span := ⟨saturate start, saturate stop⟩

def isEmpty (s : Span) : Bool := s.start = s.stop

/-- The number of bytes covered, if the span does not end before it starts. -/
def length? (s : Span) : Option Nat := if s.start ≤ s.stop then some (s.stop - s.start) else none

/-- The smallest span that covers both. -/
def merge (s t : Span) : Span := ⟨min s.start t.start, max s.stop t.stop⟩

theorem ofBytes_of_le {m n : Nat} (hm : m ≤ largest) (hn : n ≤ largest) : ofBytes m n = ⟨m, n⟩ := by
  rw [ofBytes, saturate_of_le hm, saturate_of_le hn]

theorem merge_ofBytes (m n m' n' : Nat) :
    (ofBytes m n).merge (ofBytes m' n') = ofBytes (min m m') (max n n') := by
  simp only [merge, ofBytes, saturate_min, saturate_max]

theorem length?_eq_none_iff {s : Span} : s.length? = none ↔ s.stop < s.start := by
  simp [length?]

end Span

end Recipe
