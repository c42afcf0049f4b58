import Recipe.Proofs.Lexeme.Split

/-!
# Pieces of a text

A text that is cut behind one of its lexemes splits as it did before, on both
sides of the cut (`IsSequence.of_append`, `IsSequence.cut`).  Nothing that
stands behind a lexeme has a say in it, except that it does not go on with the
lexeme, and what is left of it after a cut goes on with it even less.  So a
piece of a text from one of its lexemes to another has these lexemes and those
between them, and no others (`exists_piece`).
-/

namespace Recipe.Lexeme

variable {t gap : Text} {x : Lexeme} {xs ys zs : List (Text × Lexeme)}

namespace IsSequence

/-- The gap in front of a text does not matter. -/
theorem of_gap {gap' : Text} (h : IsSequence ((gap, x) :: xs)) (hgap' : IsGap gap') :
    IsSequence ((gap', x) :: xs) := by
  cases h with
  | last _ => exact .last hgap'
  | cons _ hflush hx hheads hxs => exact .cons hgap' hflush hx hheads hxs

/-- What stands behind a lexeme splits as it did. -/
theorem of_append (h : IsSequence (xs ++ ys)) (hys : ys ≠ []) : IsSequence ys := by
  induction xs with
  | nil => exact h
  | cons p xs ih =>
    obtain ⟨-, -, -, -, htail⟩ :=
      (isSequence_cons_iff (List.append_ne_nil_of_right_ne_nil xs hys)).mp h
    exact ih htail

/-- **A text may be cut behind a lexeme**, whatever is left behind the cut. -/
theorem cut (h : IsSequence (xs ++ ys)) (hys : ys ≠ []) (hzs : IsSequence zs)
    (hless : taken zs <+: taken ys) : IsSequence (xs ++ zs) := by
  induction xs with
  | nil => exact hzs
  | cons p xs ih =>
    have hless' : taken (xs ++ zs) <+: taken (xs ++ ys) := by
      rw [taken_append, taken_append]
      exact (List.prefix_append_right_inj (taken xs)).mpr hless
    obtain ⟨hgap, hflush, hp, hheads, htail⟩ :=
      (isSequence_cons_iff (List.append_ne_nil_of_right_ne_nil xs hys)).mp h
    exact .cons hgap
      (hflush.of_isPrefix ((List.prefix_append_right_inj p.2.text).mpr hless')) hp
      (hheads.of_isPrefix hless') (ih htail)

end IsSequence

/-- **A piece of a text has its lexemes alone**: if a text is cut in front of a
lexeme and behind another, what stands between the cuts has these lexemes and
those between them. -/
theorem exists_piece (h : sequence t = xs ++ ((gap, x) :: ys ++ zs)) (hzs : zs ≠ []) :
    ∃ r, t = taken xs ++ gap ++ taken (([], x) :: ys) ++ r ∧
      sequence (taken (([], x) :: ys)) = ([], x) :: ys ++ [([], verbatim .textEnd [])] := by
  obtain ⟨rfl, hsequence⟩ := sequence_eq_iff.mp h
  have hpiece : IsSequence ((([], x) :: ys) ++ zs) := (hsequence.of_append (by simp)).of_gap .nil
  refine ⟨taken zs, by simp [taken_append, taken_cons], sequence_eq_iff.mpr ⟨?_, ?_⟩⟩
  · simp [taken, verbatim]
  · exact hpiece.cut hzs (.last .nil) List.nil_prefix

end Recipe.Lexeme
