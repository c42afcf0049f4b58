import Recipe.Program.Basic
import Recipe.Statement.Reading
import Recipe.Token.Stream

/-!
# Reading programs

A program is read line by line up to an end of text.  A reader keeps its feed
and its faults, so that it can be asked for them between two programs.
-/

namespace Recipe

theorem Feed.length_tail_readLine_lt (o : Options) {f : Feed} (h : f.head.kind ≠ .textEnd) :
    (f.readLine o).rest.tail.tokens.length < f.tokens.length := by
  have hpos := List.length_pos_iff.2 (tokens_ne_nil h)
  have hle := f.length_skipLine_le
  simp only [rest_readLine, tail, List.length_tail]
  omega

/-- Reads lines up to an end of text: their statements, their faults and the
feed that is left. -/
def Feed.readLines (o : Options) (f : Feed) : List Statement × List Fault × Feed :=
  if h : f.head.kind = .textEnd then ([], [], f)
  else
    have := length_tail_readLine_lt o h
    let line := f.readLine o
    let (statements, faults, rest) := readLines o line.rest.tail
    (line.statement?.toList ++ statements, line.fault?.toList ++ faults, rest)
termination_by f.tokens.length

/-- What has been read so far, and what is left to be read. -/
structure Reader where
  options : Options
  feed : Feed
  faults : List Fault
deriving DecidableEq, Repr

/-- A program and what is wrong with its text. -/
structure Parsed where
  program : Program
  faults : List Fault
deriving DecidableEq, Repr

def Parsed.isOk (p : Parsed) : Bool := p.faults.isEmpty

namespace Reader

def ofTokens (o : Options) (ts : List Token) : Reader := ⟨o, .ofList ts, []⟩

/-- Reads lines up to an end of text. -/
def readProgram (r : Reader) : Program × Reader :=
  let (statements, faults, rest) := r.feed.readLines r.options
  (.ofStatements statements, { r with feed := rest, faults := r.faults ++ faults })

/-- Reads a program and gives all faults so far with it. -/
def parse (r : Reader) : Parsed :=
  let (program, r) := r.readProgram
  ⟨program, r.faults⟩

end Reader

def parseTokens (o : Options) (ts : List Token) : Parsed := (Reader.ofTokens o ts).parse

/-- The program of a source. -/
def parse (o : Options) (source : Text) : Parsed := parseTokens o (Token.ofSource source)

end Recipe
