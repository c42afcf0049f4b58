import Recipe.Place
import Recipe.Span
import Recipe.Token.Kind

/-!
# Tokens
-/

namespace Recipe

structure Token where
  kind : Kind
  /-- The text of the token; for a string, the text between its quotes. -/
  literal : Text
  position : Position
  /-- What the token covers in the source, quotes included. -/
  span : Span
deriving DecidableEq, Repr

namespace Token

/-- A token that stands in no source. -/
def bare (kind : Kind) (literal : Text) : Token := ⟨kind, literal, .start, .zero⟩

/-- The end of a source whose last token is `t`. -/
def ending (t : Token) : Token := ⟨.textEnd, [], t.position, ⟨t.span.stop, t.span.stop⟩⟩

@[simp] theorem kind_ending (t : Token) : t.ending.kind = .textEnd := rfl

@[simp] theorem ending_ending (t : Token) : t.ending.ending = t.ending := rfl

end Token

end Recipe
