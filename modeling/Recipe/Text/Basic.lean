/-!
# Texts

A text is a list of characters, so that reading one is recursion on its data.
Offsets into a source count UTF-8 bytes.
-/

namespace Recipe

/-- A piece of a source, or of what is written about one. -/
abbrev Text := List Char

namespace Text

/-- The number of bytes a text takes in UTF-8. -/
def byteSize : Text → Nat
  | [] => 0
  | c :: t => c.utf8Size + byteSize t

@[simp] theorem byteSize_nil : byteSize [] = 0 := rfl

@[simp] theorem byteSize_cons (c : Char) (t : Text) :
    byteSize (c :: t) = c.utf8Size + byteSize t := rfl

@[simp] theorem byteSize_append (s t : Text) : byteSize (s ++ t) = byteSize s + byteSize t := by
  induction s with
  | nil => simp
  | cons c s ih => simp [ih, Nat.add_assoc]

/-- Cuts a text at the first `c`, which neither part keeps. -/
def cut? (c : Char) : Text → Option (Text × Text)
  | [] => none
  | d :: t => if d = c then some ([], t) else (cut? c t).map fun (l, r) => (d :: l, r)

theorem cut?_eq_some_iff {c : Char} {t l r : Text} :
    cut? c t = some (l, r) ↔ t = l ++ c :: r ∧ c ∉ l := by
  induction t generalizing l with
  | nil => simp [cut?]
  | cons d t ih =>
    by_cases h : d = c
    · subst h
      cases l with
      | nil => simp [cut?, eq_comm]
      | cons e l => simp only [cut?]; grind
    · cases l with
      | nil => simp [cut?, h]
      | cons e l => simp only [cut?, h, ↓reduceIte, Option.map_eq_some_iff, Prod.exists]; grind

theorem cut?_eq_none_iff {c : Char} {t : Text} : cut? c t = none ↔ c ∉ t := by
  induction t with
  | nil => simp [cut?]
  | cons d t ih =>
    by_cases h : d = c
    · simp [cut?, h]
    · simp [cut?, h, ih, Ne.symm h]

/-- What invalid bytes of a file are read as. -/
def replacement : Char := '\uFFFD'

/-- A number in decimal digits. -/
def ofNat (n : Nat) : Text := Nat.toDigits 10 n

/-- A number in lower-case hexadecimal digits. -/
def hex (n : Nat) : Text := Nat.toDigits 16 n

end Text

end Recipe
