/-!
# Numbers of 32 bits

Places in a source are told in numbers of 32 bits.  An offset or a column that
does not fit is told as the largest of them (`saturate`), and the lines behind
the largest one are numbered from zero again (`wrap`).  Numbers that fit are
told as they are.
-/

namespace Recipe

/-- The largest number of 32 bits: one less than `2 ^ 32`. -/
def largest : Nat := 0xFFFFFFFF

/-- The number, or the largest one if it does not fit. -/
def saturate (n : Nat) : Nat := min n largest

/-- The number without the bits that do not fit. -/
def wrap (n : Nat) : Nat := n % (largest + 1)

variable {m n : Nat}

theorem saturate_of_le (h : n ≤ largest) : saturate n = n := Nat.min_eq_left h

theorem saturate_le_saturate (h : m ≤ n) : saturate m ≤ saturate n := by
  simp only [saturate]
  omega

theorem saturate_min (m n : Nat) : saturate (min m n) = min (saturate m) (saturate n) := by
  simp only [saturate]
  omega

theorem saturate_max (m n : Nat) : saturate (max m n) = max (saturate m) (saturate n) := by
  simp only [saturate]
  omega

/-- A sum is the same whether or not its first part has been cut off before. -/
@[simp] theorem saturate_saturate_add (m n : Nat) : saturate (saturate m + n) = saturate (m + n) := by
  simp only [saturate]
  omega

@[simp] theorem wrap_wrap_add (m n : Nat) : wrap (wrap m + n) = wrap (m + n) :=
  Nat.mod_add_mod m (largest + 1) n

end Recipe
