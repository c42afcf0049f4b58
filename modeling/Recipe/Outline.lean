import Recipe.Text.Quoted

/-!
# Outlines

A tree of named parts, and its text with four spaces for every level.  Every
part stands on a line of its own, and a comma follows it.
-/

namespace Recipe

inductive Outline where
  /-- A name or a number. -/
  | atom (t : Text)
  /-- A text in quotes. -/
  | string (t : Text)
  /-- `name(part)` -/
  | call (name : Text) (part : Outline)
  /-- A name with named parts in braces. -/
  | record (name : Text) (parts : List (Text × Outline))
  | list (parts : List Outline)

namespace Outline

/-- A new line at the given level. -/
def newLine (level : Nat) : Text := '\n' :: List.replicate (4 * level) ' '

mutual

/-- The text of an outline that stands at the given level. -/
def written (level : Nat) : Outline → Text
  | .atom t => t
  | .string t => t.quoted
  | .call name part =>
    name ++ '(' :: newLine (level + 1) ++ written (level + 1) part ++ ',' :: newLine level ++ [')']
  | .record name parts =>
    name ++ " \x7b".toList ++ writtenParts (level + 1) parts ++ newLine level ++ ['\x7d']
  | .list [] => "[]".toList
  | .list (p :: ps) => '[' :: writtenList (level + 1) (p :: ps) ++ newLine level ++ [']']

def writtenList (level : Nat) : List Outline → Text
  | [] => []
  | p :: ps => newLine level ++ written level p ++ ',' :: writtenList level ps

def writtenParts (level : Nat) : List (Text × Outline) → Text
  | [] => []
  | (name, p) :: ps =>
    newLine level ++ name ++ ": ".toList ++ written level p ++ ',' :: writtenParts level ps

end

end Outline

end Recipe
