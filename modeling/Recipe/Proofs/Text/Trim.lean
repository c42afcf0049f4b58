import Mathlib.Data.List.DropRight
import Recipe.Text.Blank

/-!
# Texts without the blanks they end with

`Text.trimEnd` looks at a text from its end, so it does not reach beyond the
last character that is not blank (`Text.trimEnd_append`).
-/

namespace Recipe.Text

variable {t u v : Text} {c : Char}

theorem trimEnd_eq_rdropWhile (t : Text) : trimEnd t = t.rdropWhile isBlank := rfl

theorem trimEnd_isPrefix (t : Text) : trimEnd t <+: t := List.rdropWhile_prefix isBlank t

theorem trimEnd_concat (h : isBlank c) (t : Text) : trimEnd (t ++ [c]) = trimEnd t :=
  List.rdropWhile_concat_pos isBlank t c h

/-- A text is kept as it is if it does not end in a blank. -/
theorem trimEnd_eq_self_iff : trimEnd t = t ↔ ∀ c ∈ t.getLast?, ¬ isBlank c := by
  rw [trimEnd_eq_rdropWhile, List.rdropWhile_eq_self_iff]
  constructor
  · rintro h c hc
    obtain ⟨hne, rfl⟩ := List.mem_getLast?_eq_getLast hc
    exact h hne
  · exact fun h hne => h _ (List.getLast?_eq_some_getLast hne)

theorem trimEnd_cons_ne_nil (h : ¬ isBlank c) (t : Text) : trimEnd (c :: t) ≠ [] := by
  rw [trimEnd_eq_rdropWhile, Ne, List.rdropWhile_eq_nil_iff]
  exact fun hall => h (hall c List.mem_cons_self)

/-- What stands in front of a character that is not blank is kept. -/
theorem trimEnd_append (h : trimEnd v ≠ []) (u : Text) : trimEnd (u ++ v) = u ++ trimEnd v := by
  induction v using List.reverseRecOn with
  | nil => exact absurd rfl h
  | append_singleton v c ih =>
    rw [← List.append_assoc]
    by_cases hc : isBlank c
    · rw [trimEnd_concat hc] at h ⊢
      rw [trimEnd_concat hc, ih h]
    · rw [trimEnd_eq_rdropWhile, trimEnd_eq_rdropWhile, List.rdropWhile_concat_neg _ _ _ hc,
        List.rdropWhile_concat_neg _ _ _ hc, List.append_assoc]

end Recipe.Text
