import Recipe.Program.Reader
import Recipe.Text.Blank

/-!
# Sessions

A session takes lines one by one and answers with chunks to be parsed.  A line
that ends in a backslash goes on with the next one; between chunks, two lines
are commands.
-/

namespace Recipe

structure Session where
  options : Options
  showTokens : Bool
  /-- The lines of a chunk that is still to be ended, each with its line
  feed. -/
  pending : Text
deriving DecidableEq, Repr

namespace Session

inductive Answer where
  | exit
  | toggleTokens
  /-- The line goes on with the next one. -/
  | incomplete
  | chunk (t : Text)
deriving DecidableEq, Repr

def start (o : Options) (showTokens : Bool) : Session := ⟨o, showTokens, []⟩

/-- Whether the next line belongs to a chunk that has been started. -/
def isContinuing (s : Session) : Bool := !s.pending.isEmpty

/-- Whether a line goes on with the next one, blank characters at its end
aside. -/
def goesOn (line : Text) : Bool := (Text.trimEnd line).getLast? = some '\\'

/-- The answer of a line that is one of the two commands. -/
def command? (line : Text) : Option Answer :=
  if Text.trim line = "exit".toList then some .exit
  else if Text.trim line = ":tokens".toList then some .toggleTokens
  else none

/-- Adds a line to the chunk. -/
def extend (s : Session) (line : Text) : Answer × Session :=
  if goesOn line then (.incomplete, { s with pending := s.pending ++ line ++ ['\n'] })
  else (.chunk (s.pending ++ line), { s with pending := [] })

/-- Takes a line. -/
def push (s : Session) (line : Text) : Answer × Session :=
  if s.isContinuing then s.extend line
  else
    match command? line with
    | some .toggleTokens => (.toggleTokens, { s with showTokens := !s.showTokens })
    | some answer => (answer, s)
    | none => s.extend line

def parse (s : Session) (chunk : Text) : Parsed := Recipe.parse s.options chunk

/-- Whom a session greets: the first of the given names that is not empty. -/
def guest (names : List (Option Text)) : Text :=
  ((names.filterMap id).find? fun name => !name.isEmpty).getD "there".toList

end Session

end Recipe
