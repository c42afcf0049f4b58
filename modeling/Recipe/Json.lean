import Recipe.Text.Basic

/-!
# JSON

JSON values without fractions, and their text with two spaces for every level.
-/

namespace Recipe

inductive Json where
  | null
  | number (n : Nat)
  | string (t : Text)
  | array (vs : List Json)
  /-- An object with its fields in the order they are written. -/
  | object (fields : List (Text × Json))

namespace Json

/-- A character inside a JSON string.  Controls have four digits if they have no
letter. -/
def quoteChar (c : Char) : Text :=
  match c with
  | '"' => ['\\', '"']
  | '\\' => ['\\', '\\']
  | '\x08' => ['\\', 'b']
  | '\x0c' => ['\\', 'f']
  | '\n' => ['\\', 'n']
  | '\r' => ['\\', 'r']
  | '\t' => ['\\', 't']
  | c =>
    if c.toNat < 0x10 then "\\u000".toList ++ Text.hex c.toNat
    else if c.toNat < 0x20 then "\\u00".toList ++ Text.hex c.toNat
    else [c]

def quoted (t : Text) : Text := '"' :: (t.flatMap quoteChar ++ ['"'])

/-- A new line at the given level. -/
def newLine (level : Nat) : Text := '\n' :: List.replicate (2 * level) ' '

mutual

/-- The text of a value that stands at the given level. -/
def written (level : Nat) : Json → Text
  | .null => "null".toList
  | .number n => Text.ofNat n
  | .string t => quoted t
  | .array [] => "[]".toList
  | .array (v :: vs) => writtenItems (level + 1) '[' (v :: vs) ++ newLine level ++ [']']
  | .object [] => ['\x7b', '\x7d']
  | .object (f :: fs) => writtenFields (level + 1) '\x7b' (f :: fs) ++ newLine level ++ ['\x7d']

/-- Items on lines of their own: `lead` stands before the first and a comma
before the others. -/
def writtenItems (level : Nat) (lead : Char) : List Json → Text
  | [] => []
  | v :: vs => lead :: newLine level ++ written level v ++ writtenItems level ',' vs

/-- Fields on lines of their own: `lead` stands before the first and a comma
before the others. -/
def writtenFields (level : Nat) (lead : Char) : List (Text × Json) → Text
  | [] => []
  | (name, v) :: fs =>
    lead :: newLine level ++ quoted name ++ ": ".toList ++ written level v ++
      writtenFields level ',' fs

end

end Json

end Recipe
