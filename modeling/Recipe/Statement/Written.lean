import Recipe.Statement.Basic

/-!
# The written form of statements

A statement is written on one line with its words as they were read, except that
`ARG name value` is written `ARG name=value`.
-/

namespace Recipe

/-- A text in double quotes, or in single ones if it holds a double one. -/
def Word.quote (t : Text) : Text :=
  if '"' ∈ t then '\'' :: (t ++ ['\'']) else '"' :: (t ++ ['"'])

def Word.written (w : Word) : Text :=
  if w.kind = .string then quote w.literal else w.literal

/-- Whether a word stands directly behind the one before it: closing brackets
and commas do, and whatever follows an opening bracket. -/
def Word.isTight (before : Kind) (w : Word) : Bool :=
  w.kind = .rightBracket || w.kind = .comma || before = .leftBracket

/-- The words of a line behind a token of kind `before`. -/
def Word.writtenList (before : Kind) : List Word → Text
  | [] => []
  | w :: ws =>
    (if w.isTight before then w.written else ' ' :: w.written) ++ writtenList w.kind ws

def Flag.writtenList (fs : List Flag) : Text := fs.flatMap fun f => ' ' :: f.literal

def Statement.written : Statement → Text
  | .comment value _ => "# ".toList ++ value.literal
  | .fromImage flags source none _ =>
    "FROM".toList ++ Flag.writtenList flags ++ ' ' :: source.literal
  | .fromImage flags source (some stage) _ =>
    "FROM".toList ++ Flag.writtenList flags ++ ' ' :: source.literal ++
      " AS ".toList ++ stage.literal
  | .arg word _ _ none _ => "ARG ".toList ++ word.literal
  | .arg word _ _ (some value) _ => "ARG ".toList ++ word.literal ++ '=' :: value.literal
  | .copy flags source dest _ =>
    "COPY".toList ++ Flag.writtenList flags ++ ' ' :: source.literal ++ ' ' :: dest.literal
  | .other keyword words _ => keyword.text ++ Word.writtenList (.keyword keyword) words

end Recipe
