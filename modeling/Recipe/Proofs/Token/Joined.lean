import Recipe.Proofs.Lexeme.Behind
import Recipe.Proofs.Place.Count
import Recipe.Proofs.Token.Excerpt

/-!
# The tokens of joined sources

Where two texts are joined by a line feed, the tokens are those of the first
text, the line feed, and those of the second text some lines below
(`Token.exists_ofSource_append_lineFeed`).  This asks that the first text does
not take the line feed in: that it closes its quotes and does not end in a
backslash.  Both are needed, since they are all that can keep a line feed from
being a token (`Token.exists_lineFeed_mem_ofSource_iff`).
-/

namespace Recipe

open Lexeme (taken)

/-! ## Places below a text -/

namespace Place

/-- The place some bytes and some lines further down. -/
def down (p : Place) (bytes lines : Nat) : Place :=
  ⟨p.offset + bytes, p.line + lines, p.column⟩

theorem step_down (p : Place) (bytes lines : Nat) (c : Char) :
    (p.down bytes lines).step c = (p.step c).down bytes lines := by
  unfold step down
  split <;> simp only [Nat.add_right_comm]

theorem after_down (p : Place) (bytes lines : Nat) (t : Text) :
    (p.down bytes lines).after t = (p.after t).down bytes lines := by
  induction t generalizing p with
  | nil => rfl
  | cons c t ih => rw [after_cons, step_down, ih, after_cons]

/-- A new line starts below the text in front of it. -/
theorem after_lineFeed (a : Text) :
    (start.after a).after ['\n'] = start.down (a.byteSize + 1) (a.count '\n' + 1) := by
  have hfeed : '\n'.utf8Size = 1 := rfl
  rw [after_cons, after_nil, step, if_pos rfl, after_start, start, down, hfeed]
  simp only [Nat.zero_add, Place.mk.injEq, true_and, and_true]
  omega

end Place

namespace Token

theorem toToken_down (p : Place) (bytes lines : Nat) (x : Lexeme) :
    x.toToken (p.down bytes lines) = (Move.down bytes lines).token (x.toToken p) := by
  simp only [Lexeme.toToken, Place.position, Place.down, Move.token, Move.down, Span.ofBytes,
    saturate_saturate_add, wrap_wrap_add, Nat.add_right_comm]

/-- Lexemes further down are the same tokens further down. -/
theorem placed_down (p : Place) (bytes lines : Nat) (xs : List (Text × Lexeme)) :
    placed (p.down bytes lines) xs = (placed p xs).map (Move.down bytes lines).token := by
  induction xs generalizing p with
  | nil => rfl
  | cons x xs ih =>
    rw [placed, Place.after_down, Place.after_down, toToken_down, ih, placed, List.map_cons]

/-! ## Sources with a line feed between them -/

/-- A quote that is not closed, with all that stands behind it. -/
def IsUnclosed (t : Token) : Prop := t.kind = .illegal ∧ ∃ q ∈ t.literal.head?, q = '"' ∨ q = '\''

theorem isUnclosed_iff {t : Token} :
    t.IsUnclosed ↔
      t.kind = .illegal ∧ (t.literal.head? = some '"' ∨ t.literal.head? = some '\'') := by
  refine and_congr_right fun _ => ⟨?_, ?_⟩
  · rintro ⟨q, hq, rfl | rfl⟩
    · exact .inl hq
    · exact .inr hq
  · rintro (hq | hq)
    · exact ⟨_, hq, .inl rfl⟩
    · exact ⟨_, hq, .inr rfl⟩

-- Not by a search through all characters.
instance : DecidablePred IsUnclosed := fun _ => decidable_of_iff _ isUnclosed_iff.symm

/-- The line feed that stands behind the text `a`. -/
def lineFeedBehind (a : Text) : Token :=
  ⟨.lineFeed, ['\n'], (Place.start.after a).position, .ofBytes a.byteSize (a.byteSize + 1)⟩

/-- A source closes its quotes if its lexemes do. -/
theorem forall_not_isUnclosed_iff {a : Text} :
    (∀ t ∈ ofSource a, ¬ t.IsUnclosed) ↔ ∀ p ∈ Lexeme.sequence a, ¬ p.2.IsUnclosed := by
  rw [ofSource_eq_placed]
  exact forall_mem_placed_iff
    (P := fun k l => ¬ (k = .illegal ∧ ∃ q ∈ l.head?, q = '"' ∨ q = '\''))

/-- **Joined sources have the tokens of both**, with the line feed between them,
if the first one does not take the line feed in. -/
theorem exists_ofSource_append_lineFeed {a : Text} (hclosed : ∀ t ∈ ofSource a, ¬ t.IsUnclosed)
    (hjoin : ¬ Lexeme.JoinsNext a) (b : Text) :
    ∃ us e, ofSource a = us ++ [e] ∧ e.kind = .textEnd ∧
      ofSource (a ++ '\n' :: b) =
        us ++ lineFeedBehind a :: (ofSource b).map (Move.below a).token := by
  obtain ⟨us, gap, ha, hus, hjoined⟩ :=
    Lexeme.exists_sequence_append_lineFeed (forall_not_isUnclosed_iff.mp hclosed) hjoin b
  have hplace : (Place.start.after (taken us)).after gap = Place.start.after a := by
    rw [ha, Place.after_append]
  have hfeed : (Lexeme.verbatim .lineFeed ['\n']).toToken (Place.start.after a) =
      lineFeedBehind a := by
    rw [Lexeme.toToken, Place.offset_after, show Place.start.offset = 0 from rfl, Nat.zero_add]
    rfl
  refine ⟨placed .start us, (Lexeme.verbatim .textEnd []).toToken (Place.start.after a), ?_, rfl,
    ?_⟩
  · rw [ofSource_eq_placed, hus, placed_append, placed, hplace]
    rfl
  · rw [ofSource_eq_placed, hjoined, placed_append, placed, hplace, hfeed, ofSource_eq_placed,
      Move.below, ← placed_down, ← Place.after_lineFeed]
    rfl

/-- **When a line feed is a token**: exactly if the text in front of it closes
its quotes and does not end in a backslash. -/
theorem exists_lineFeed_mem_ofSource_iff {source : Text} :
    (∃ t ∈ ofSource source, t.kind = .lineFeed) ↔
      ∃ a b, source = a ++ '\n' :: b ∧ (∀ t ∈ ofSource a, ¬ t.IsUnclosed) ∧
        ¬ Lexeme.JoinsNext a := by
  have hlexeme : (∃ t ∈ ofSource source, t.kind = .lineFeed) ↔
      ∃ p ∈ Lexeme.sequence source, p.2.kind = .lineFeed := by
    rw [ofSource_eq_placed]
    simpa using not_congr (forall_mem_placed_iff (P := fun k _ => k ≠ .lineFeed))
  rw [hlexeme, Lexeme.exists_lineFeed_mem_sequence_iff]
  simp only [forall_not_isUnclosed_iff]

end Token

end Recipe
