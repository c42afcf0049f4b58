import Recipe.Outline
import Recipe.Program.Basic

/-!
# The outline of programs

The outline shows every part of a program by the name of its type.
-/

namespace Recipe

namespace Outline

def number (n : Nat) : Outline := .atom (Text.ofNat n)

def optional : Option Outline → Outline
  | none => .atom "None".toList
  | some o => .call "Some".toList o

end Outline

def Span.outline (s : Span) : Outline :=
  .record "Span".toList [("start".toList, .number s.start), ("end".toList, .number s.stop)]

def Keyword.outline (k : Keyword) : Outline := .atom k.tag

def Kind.outline (k : Kind) : Outline :=
  match k with
  | .keyword w => .call k.tag w.outline
  | _ => .atom k.tag

def Identifier.outline (i : Identifier) : Outline :=
  .record "Identifier".toList
    [("literal".toList, .string i.literal), ("value".toList, .string i.value),
      ("span".toList, i.span.outline)]

def Flag.outline (f : Flag) : Outline :=
  .record "Argument".toList
    [("literal".toList, .string f.literal), ("name".toList, .string f.name),
      ("value".toList, .string f.value), ("span".toList, f.span.outline)]

def Word.outline (w : Word) : Outline :=
  .record "Word".toList
    [("kind".toList, w.kind.outline), ("literal".toList, .string w.literal),
      ("span".toList, w.span.outline)]

def Statement.outline : Statement → Outline
  | .comment value span =>
    .call "Comment".toList <| .record "CommentStatement".toList
      [("value".toList, value.outline), ("span".toList, span.outline)]
  | .fromImage flags source stage? span =>
    .call "From".toList <| .record "FromStatement".toList
      [("arguments".toList, .list (flags.map Flag.outline)), ("source".toList, source.outline),
        ("alias".toList, .optional (stage?.map Identifier.outline)),
        ("span".toList, span.outline)]
  | .arg word name value? valueWord? span =>
    .call "Arg".toList <| .record "ArgStatement".toList
      [("word".toList, word.outline), ("name".toList, .string name),
        ("value".toList, .optional (value?.map .string)),
        ("value_word".toList, .optional (valueWord?.map Identifier.outline)),
        ("span".toList, span.outline)]
  | .copy flags source dest span =>
    .call "Copy".toList <| .record "CopyStatement".toList
      [("arguments".toList, .list (flags.map Flag.outline)), ("source".toList, source.outline),
        ("dest".toList, dest.outline), ("span".toList, span.outline)]
  | .other keyword words span =>
    .call "Unparsed".toList <| .record "UnparsedStatement".toList
      [("keyword".toList, keyword.outline), ("arguments".toList, .list (words.map Word.outline)),
        ("span".toList, span.outline)]

def Program.outline (p : Program) : Outline :=
  .record "Program".toList
    [("directives".toList, .list (p.directives.map Statement.outline)),
      ("statements".toList, .list (p.statements.map Statement.outline))]

end Recipe
