import Recipe.Proofs.Lexeme.Word
import Recipe.Text.Escape

/-!
# What words stand for

In a word every backslash has a space behind it and every space a backslash in
front of it.  So a word stands for a text without backslashes, and that text can
be written in one way only: as this word (`IsUnits.escape_unescape`).
-/

namespace Recipe

namespace Text

/-- Nothing is put into a text where its spaces are resolved. -/
theorem mem_of_mem_unescape {c : Char} {t : Text} (h : c ∈ unescape t) : c ∈ t := by
  fun_induction unescape t with
  | case1 t ih =>
    rcases List.mem_cons.mp h with rfl | h
    · exact List.mem_cons_of_mem _ List.mem_cons_self
    · exact List.mem_cons_of_mem _ (List.mem_cons_of_mem _ (ih h))
  | case2 d t _ ih =>
    rcases List.mem_cons.mp h with rfl | h
    · exact List.mem_cons_self
    · exact List.mem_cons_of_mem d (ih h)
  | case3 => exact h

end Text

namespace Lexeme.IsUnits

variable {w l r : Text} {c : Char}

/-- A character of a word that stands for itself has units in front of it and
behind it. -/
theorem of_append_cons (h : IsUnits (l ++ c :: r)) (hslash : c ≠ '\\') (hspace : c ≠ ' ') :
    IsUnits l ∧ IsUnits r := by
  generalize hw : l ++ c :: r = w at h
  induction h generalizing l with
  | nil => simp at hw
  | @plain d w hd hrest ih =>
    cases l with
    | nil =>
      obtain ⟨-, rfl⟩ := List.cons.inj hw
      exact ⟨.nil, hrest⟩
    | cons e l =>
      obtain ⟨rfl, rfl⟩ := List.cons.inj hw
      obtain ⟨hl, hr⟩ := ih rfl
      exact ⟨.plain hd hl, hr⟩
  | @escaped w hrest ih =>
    rcases l with _ | ⟨e, _ | ⟨e', l⟩⟩
    · exact absurd (List.cons.inj hw).1 hslash
    · exact absurd (List.cons.inj (List.cons.inj hw).2).1 hspace
    · obtain ⟨rfl, htail⟩ := List.cons.inj hw
      obtain ⟨rfl, rfl⟩ := List.cons.inj htail
      obtain ⟨hl, hr⟩ := ih rfl
      exact ⟨.escaped hl, hr⟩

theorem ne_of_isPlain (h : isPlain c) : c ≠ '\\' ∧ c ≠ ' ' := by
  constructor
  · rintro rfl
    cases h
  · rintro rfl
    cases h

/-- The text that a word stands for has no backslash. -/
theorem backslash_notMem_unescape (hw : IsUnits w) : '\\' ∉ w.unescape := by
  induction hw with
  | nil => exact List.not_mem_nil
  | plain hc _ ih =>
    obtain ⟨hslash, -⟩ := ne_of_isPlain hc
    rw [Text.unescape_cons_of_ne hslash]
    simp [hslash.symm, ih]
  | escaped _ ih => simp [ih]

/-- **A word is what its text is written as.** -/
theorem escape_unescape (hw : IsUnits w) : w.unescape.escape = w := by
  induction hw with
  | nil => rfl
  | plain hc _ ih =>
    obtain ⟨hslash, hspace⟩ := ne_of_isPlain hc
    rw [Text.unescape_cons_of_ne hslash, Text.escape, if_neg hspace, ih]
  | escaped _ ih => rw [Text.unescape_escaped_space, Text.escape, if_pos rfl, ih]

end Lexeme.IsUnits

end Recipe
