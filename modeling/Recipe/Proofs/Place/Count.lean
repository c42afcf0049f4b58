import Mathlib.Data.List.DropRight
import Recipe.Place

/-!
# What places count

A place has the number of the bytes and the number of the line feeds in front of
it, and the number of bytes behind the last one of these, lines and columns
counted from one (`Place.counts_after`).
-/

namespace Recipe

namespace Text

variable {t : Text} {c : Char}

/-- The lines of a text that have ended, each with its line feed. -/
def endedLines (t : Text) : Text := t.rdropWhile (· ≠ '\n')

/-- What stands behind the last line feed of a text. -/
def lastLine (t : Text) : Text := t.rtakeWhile (· ≠ '\n')

@[simp] theorem endedLines_concat_lineFeed (t : Text) :
    endedLines (t ++ ['\n']) = t ++ ['\n'] :=
  List.rdropWhile_concat_neg _ _ _ (by simp)

@[simp] theorem lastLine_concat_lineFeed (t : Text) : lastLine (t ++ ['\n']) = [] :=
  List.rtakeWhile_concat_neg _ _ _ (by simp)

theorem lastLine_concat (h : c ≠ '\n') : lastLine (t ++ [c]) = t.lastLine ++ [c] :=
  List.rtakeWhile_concat_pos _ _ _ (by simpa using h)

end Text

namespace Place

/-- The place behind a text. -/
theorem after_start (t : Text) :
    start.after t = ⟨t.byteSize, 1 + t.count '\n', 1 + t.lastLine.byteSize⟩ := by
  induction t using List.reverseRecOn with
  | nil => rfl
  | append_singleton t c ih =>
    rw [after_append, after_cons, after_nil, step, ih, List.count_append]
    split
    · rename_i hc
      subst hc
      simp
      omega
    · rename_i hc
      rw [Text.lastLine_concat hc]
      simp [hc, Nat.add_assoc]

end Place

end Recipe
