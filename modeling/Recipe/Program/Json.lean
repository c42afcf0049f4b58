import Recipe.Json
import Recipe.Program.Basic

/-!
# The JSON form of programs

Every part of a program is an object with its fields in a fixed order; a
statement is told by its field `type`.
-/

namespace Recipe

namespace Json

def nullable (v? : Option Json) : Json := v?.getD .null

end Json

def Span.json (s : Span) : Json :=
  .object [("start".toList, .number s.start), ("end".toList, .number s.stop)]

/-- A keyword is an object, every other kind a string. -/
def Kind.json (k : Kind) : Json :=
  match k with
  | .keyword w => .object [(k.tag, .string w.tag)]
  | _ => .string k.tag

def Identifier.json (i : Identifier) : Json :=
  .object [("literal".toList, .string i.literal), ("value".toList, .string i.value),
    ("span".toList, i.span.json)]

def Flag.json (f : Flag) : Json :=
  .object [("literal".toList, .string f.literal), ("name".toList, .string f.name),
    ("value".toList, .string f.value), ("span".toList, f.span.json)]

def Word.json (w : Word) : Json :=
  .object [("kind".toList, w.kind.json), ("literal".toList, .string w.literal),
    ("span".toList, w.span.json)]

namespace Statement

/-- The name of a statement's form. -/
def tag : Statement → Text
  | .comment .. => "Comment".toList
  | .fromImage .. => "From".toList
  | .arg .. => "Arg".toList
  | .copy .. => "Copy".toList
  | .other .. => "Unparsed".toList

/-- The fields that a statement does not share with all others. -/
def fields : Statement → List (Text × Json)
  | .comment value _ => [("value".toList, value.json)]
  | .fromImage flags source stage? _ =>
    [("arguments".toList, .array (flags.map Flag.json)), ("source".toList, source.json),
      ("alias".toList, .nullable (stage?.map Identifier.json))]
  | .arg word name value? valueWord? _ =>
    [("word".toList, word.json), ("name".toList, .string name),
      ("value".toList, .nullable (value?.map .string)),
      ("value_word".toList, .nullable (valueWord?.map Identifier.json))]
  | .copy flags source dest _ =>
    [("arguments".toList, .array (flags.map Flag.json)), ("source".toList, source.json),
      ("dest".toList, dest.json)]
  | .other keyword words _ =>
    [("keyword".toList, .string keyword.tag), ("arguments".toList, .array (words.map Word.json))]

def json (s : Statement) : Json :=
  .object (("type".toList, .string s.tag) :: s.fields ++ [("span".toList, s.span.json)])

end Statement

def Program.json (p : Program) : Json :=
  .object [("directives".toList, .array (p.directives.map Statement.json)),
    ("statements".toList, .array (p.statements.map Statement.json))]

end Recipe
