import Mathlib.Data.List.Basic
import Recipe.Text.Basic

/-!
# Texts put together from parts

Parts with a character between any two of them, against parts with the character
in front of each or behind each.
-/

namespace Recipe.Text

variable (c : Char)

/-- Behind the first part, every part has the separator in front of it. -/
theorem intercalate_cons (part : Text) (parts : List Text) :
    List.intercalate [c] (part :: parts) = part ++ parts.flatMap (c :: ·) := by
  induction parts generalizing part with
  | nil => rw [List.intercalate_singleton, List.flatMap_nil, List.append_nil]
  | cons part' parts ih =>
    rw [List.intercalate_cons_cons, ih, List.flatMap_cons, List.append_assoc]
    rfl

/-- With an empty part behind them, all parts have the separator behind them. -/
theorem intercalate_concat_nil (parts : List Text) :
    List.intercalate [c] (parts ++ [[]]) = parts.flatMap (· ++ [c]) := by
  induction parts with
  | nil => rfl
  | cons part parts ih =>
    rw [List.cons_append, List.intercalate_cons_of_ne_nil (by simp), ih, List.flatMap_cons]

/-- The last part has no separator behind it. -/
theorem intercalate_append_singleton {parts : List Text} (h : parts ≠ []) :
    List.intercalate [c] parts ++ [c] = parts.flatMap (· ++ [c]) := by
  induction parts with
  | nil => exact absurd rfl h
  | cons part parts ih =>
    cases parts with
    | nil => rw [List.intercalate_singleton, List.flatMap_singleton]
    | cons part' parts =>
      rw [List.flatMap_cons, List.intercalate_cons_cons, List.append_assoc,
        ih (List.cons_ne_nil _ _)]

end Recipe.Text
