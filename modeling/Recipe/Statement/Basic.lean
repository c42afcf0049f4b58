import Recipe.Text.Escape
import Recipe.Token.Basic

/-!
# Statements

What a line of a recipe says, as far as it is read.  The parts own their texts
and know what they cover in the source.
-/

namespace Recipe

/-- A word that names something. -/
structure Identifier where
  /-- The word as it is written. -/
  literal : Text
  /-- The word with its escaped spaces resolved. -/
  value : Text
  span : Span
deriving DecidableEq, Repr

/-- A word `--name=value` in front of what a statement is about. -/
structure Flag where
  /-- The word as it is written. -/
  literal : Text
  name : Text
  value : Text
  span : Span
deriving DecidableEq, Repr

/-- A token of a line that is kept without being interpreted. -/
structure Word where
  kind : Kind
  literal : Text
  span : Span
deriving DecidableEq, Repr

inductive Statement where
  /-- `# value` -/
  | comment (value : Identifier) (span : Span)
  /-- `FROM flags source` or `FROM flags source AS stage` -/
  | fromImage (flags : List Flag) (source : Identifier) (stage? : Option Identifier) (span : Span)
  /-- `ARG name=value`, where `word` is all of it, or `ARG word valueWord`, or
  `ARG word` -/
  | arg (word : Identifier) (name : Text) (value? : Option Text) (valueWord? : Option Identifier)
      (span : Span)
  /-- `COPY flags source dest` -/
  | copy (flags : List Flag) (source dest : Identifier) (span : Span)
  /-- A line with another keyword at its head, as a list of words. -/
  | other (keyword : Keyword) (words : List Word) (span : Span)
deriving DecidableEq, Repr

def Token.identifier (t : Token) : Identifier := ⟨t.literal, t.literal.unescape, t.span⟩

def Token.word (t : Token) : Word := ⟨t.kind, t.literal, t.span⟩

/-- What stands behind the two hyphens of a flag. -/
def Flag.body? : Text → Option Text
  | '-' :: '-' :: t => some t
  | _ => none

/-- The flag a token spells, if there is a `=` behind its hyphens.  The first
one ends the name. -/
def Token.flag? (t : Token) : Option Flag := do
  let body ← Flag.body? t.literal
  let (name, value) ← body.cut? '='
  return ⟨t.literal, name, value.unescape, t.span⟩

namespace Statement

def span : Statement → Span
  | .comment _ s | .fromImage _ _ _ s | .arg _ _ _ _ s | .copy _ _ _ s | .other _ _ s => s

def isComment : Statement → Bool
  | .comment .. => true
  | _ => false

/-- The text of the token that introduces a statement. -/
def head : Statement → Text
  | .comment .. => ['#']
  | .fromImage .. => Keyword.fromImage.text
  | .arg .. => Keyword.arg.text
  | .copy .. => Keyword.copy.text
  | .other k .. => k.text

end Statement

end Recipe
