import Recipe.Text.Basic
import Recipe.Text.Extending
import Recipe.Text.Unprintable

/-!
# Texts in quotes

A text is shown on one line in double quotes.  What cannot be seen is written by
its code point.
-/

namespace Recipe.Text

/-- The halfwidth sound marks, the only letters among the extending characters:
each has a cell of its own, where it can be seen. -/
def isSoundMark (c : Char) : Bool := c = '\uff9e' || c = '\uff9f'

/-- Characters that quotes show by their code point. -/
def isHidden (c : Char) : Bool := isUnprintable c || (isExtending c && !isSoundMark c)

/-- A character inside quotes. -/
def quoteChar (c : Char) : Text :=
  match c with
  | '\x00' => ['\\', '0']
  | '\t' => ['\\', 't']
  | '\n' => ['\\', 'n']
  | '\r' => ['\\', 'r']
  | '"' => ['\\', '"']
  | '\\' => ['\\', '\\']
  | c =>
    if isHidden c then '\\' :: 'u' :: '\x7b' :: (hex c.toNat ++ ['\x7d'])
    else [c]

def quoted (t : Text) : Text := '"' :: (t.flatMap quoteChar ++ ['"'])

end Recipe.Text
