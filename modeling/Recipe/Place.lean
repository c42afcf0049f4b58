import Recipe.Number
import Recipe.Text.Basic

/-!
# Places in a source

A place is what a reader has counted up to where it stands.  Every character
moves it in one way, whatever token the character belongs to (`Place.step`), so
the place behind a text is a fold over that text.  What a reader says of a place
is its `Position`, in numbers of 32 bits.
-/

namespace Recipe

/-- A line and a column, both counted from one.  Columns count bytes. -/
structure Position where
  line : Nat
  column : Nat
deriving DecidableEq, Repr

namespace Position

def start : Position := ⟨1, 1⟩

/-- A position as `line:column`. -/
def text (p : Position) : Text := Text.ofNat p.line ++ ':' :: Text.ofNat p.column

end Position

/-- The bytes in front of a place, and the line and the column that it is in,
both counted from one. -/
structure Place where
  offset : Nat
  line : Nat
  column : Nat
deriving DecidableEq, Repr

namespace Place

def start : Place := ⟨0, 1, 1⟩

/-- The position of a place, in numbers of 32 bits. -/
def position (p : Place) : Position := ⟨wrap p.line, saturate p.column⟩

/-- The place behind the character `c`: a line feed starts a line, and nothing
else does. -/
def step (p : Place) (c : Char) : Place :=
  if c = '\n' then ⟨p.offset + c.utf8Size, p.line + 1, 1⟩
  else ⟨p.offset + c.utf8Size, p.line, p.column + c.utf8Size⟩

/-- The place behind the text `t`. -/
def after (p : Place) (t : Text) : Place := t.foldl step p

@[simp] theorem offset_start : start.offset = 0 := rfl

@[simp] theorem offset_step (p : Place) (c : Char) : (p.step c).offset = p.offset + c.utf8Size := by
  unfold step
  split <;> rfl

@[simp] theorem after_nil (p : Place) : p.after [] = p := rfl

@[simp] theorem after_cons (p : Place) (c : Char) (t : Text) :
    p.after (c :: t) = (p.step c).after t := rfl

@[simp] theorem after_append (p : Place) (s t : Text) : p.after (s ++ t) = (p.after s).after t :=
  List.foldl_append

@[simp] theorem offset_after (p : Place) (t : Text) :
    (p.after t).offset = p.offset + t.byteSize := by
  induction t generalizing p with
  | nil => rfl
  | cons c t ih => simp [ih, Nat.add_assoc]

end Place

end Recipe
