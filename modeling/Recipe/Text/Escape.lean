import Recipe.Text.Basic

/-!
# Escaped spaces

A word of a recipe holds a space as a backslash with the space behind it.
`escape` writes that form and `unescape` reads it; reading what was written
gives the text back (`unescape_escape`).
-/

namespace Recipe.Text

/-- Every space with a backslash before it. -/
def escape : Text → Text
  | [] => []
  | c :: t => if c = ' ' then '\\' :: ' ' :: escape t else c :: escape t

/-- Takes the backslash off every escaped space.  A backslash before anything
else stays. -/
def unescape : Text → Text
  | '\\' :: ' ' :: t => ' ' :: unescape t
  | c :: t => c :: unescape t
  | [] => []

@[simp] theorem unescape_nil : unescape [] = [] := rfl

@[simp] theorem unescape_escaped_space (t : Text) :
    unescape ('\\' :: ' ' :: t) = ' ' :: unescape t := rfl

theorem unescape_cons_of_ne {c : Char} (h : c ≠ '\\') (t : Text) :
    unescape (c :: t) = c :: unescape t := by
  rw [unescape.eq_2]
  intro _ hc
  exact absurd hc h

theorem escape_ne_space_cons (t r : Text) : escape t ≠ ' ' :: r := by
  cases t with
  | nil => simp [escape]
  | cons c t => by_cases h : c = ' ' <;> simp [escape, h]

theorem unescape_escape (t : Text) : unescape (escape t) = t := by
  induction t with
  | nil => rfl
  | cons c t ih =>
    by_cases h : c = ' '
    · simp [escape, h, ih]
    · rw [escape, if_neg h, unescape.eq_2, ih]
      intro r _ hr
      exact escape_ne_space_cons t r hr

end Recipe.Text
