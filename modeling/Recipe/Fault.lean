import Recipe.Token.Basic

/-!
# Faults

What is wrong with a line, and the token that shows it.
-/

namespace Recipe

inductive Cause where
  /-- Another kind of token has to stand here. -/
  | unexpectedToken (expected found : Kind)
  /-- A word that starts with two hyphens and has no `=`. -/
  | malformedFlag (flag : Text)
  /-- No line starts with a token of this kind. -/
  | unexpectedStart (found : Kind)
  /-- A piece of text that is no token. -/
  | illegalToken (literal : Text)
deriving DecidableEq, Repr

def Cause.message : Cause → Text
  | .unexpectedToken expected found =>
    "expected next token to be ".toList ++ expected.name ++ ", got ".toList ++ found.name ++
      " instead".toList
  | .malformedFlag flag =>
    "malformed flag `".toList ++ flag ++ "`: expected `--name=value`".toList
  | .unexpectedStart found =>
    "expected an instruction or a comment, got ".toList ++ found.name ++ " instead".toList
  | .illegalToken literal => "illegal token `".toList ++ literal ++ "`".toList

structure Fault where
  cause : Cause
  span : Span
  position : Position
deriving DecidableEq, Repr

namespace Fault

/-- A fault that the token `t` shows. -/
def ofToken (cause : Cause) (t : Token) : Fault := ⟨cause, t.span, t.position⟩

def unexpectedToken (expected : Kind) (t : Token) : Fault :=
  ofToken (.unexpectedToken expected t.kind) t

def malformedFlag (t : Token) : Fault := ofToken (.malformedFlag t.literal) t

def unexpectedStart (t : Token) : Fault := ofToken (.unexpectedStart t.kind) t

def illegalToken (t : Token) : Fault := ofToken (.illegalToken t.literal) t

def message (f : Fault) : Text := f.cause.message

end Fault

end Recipe
