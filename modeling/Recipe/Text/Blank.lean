import Recipe.Text.Basic
import Recipe.Text.Ranges

/-!
# Blank characters

The characters of the property White_Space of Unicode, and texts without them at
their ends.
-/

namespace Recipe.Text

def isBlank (c : Char) : Bool :=
  inRanges
    [(0x9, 0xD), (0x20, 0x20), (0x85, 0x85), (0xA0, 0xA0), (0x1680, 0x1680), (0x2000, 0x200A),
      (0x2028, 0x2029), (0x202F, 0x202F), (0x205F, 0x205F), (0x3000, 0x3000)] c

/-- The text without the blank characters it ends with. -/
def trimEnd (t : Text) : Text := (t.reverse.dropWhile isBlank).reverse

/-- The text without the blank characters at either end. -/
def trim (t : Text) : Text := trimEnd (t.dropWhile isBlank)

end Recipe.Text
