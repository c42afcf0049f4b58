import Recipe.CommandLine.Settings
import Recipe.Program.Reader

/-!
# Commands

What the words of the command line ask for.  Words that are no command are
answered with the usage of the program.
-/

namespace Recipe.CommandLine

/-- What is done with the text of a file. -/
inductive Task where
  /-- Its program is printed. -/
  | print (options : Options) (format : Format)
  /-- Its tokens are listed. -/
  | list
deriving DecidableEq, Repr

inductive Command where
  | file (path : Text) (task : Task)
  /-- Lines are read from the terminal. -/
  | session (options : Options) (showTokens : Bool)
deriving DecidableEq, Repr

structure Invocation where
  verbose : Bool
  command : Command
deriving DecidableEq, Repr

namespace Settings

def has (s : Settings) (w : Switch) : Bool := w ∈ s.given

def options (s : Settings) : Options := if s.has .compat then .lenient else .strict

/-- The path, if there is exactly one. -/
def path? (s : Settings) : Option Text :=
  match s.paths with
  | [path] => some path
  | _ => none

end Settings

namespace Invocation

/-- The command of the given name with the given words behind it. -/
def ofCommand? (name : Text) (words : List Text) : Option Invocation :=
  if name = "parse".toList then do
    let s ← Settings.initial.read? [.verbose, .compat, .format] words
    return ⟨s.has .verbose, .file (← s.path?) (.print s.options s.format)⟩
  else if name = "lex".toList then do
    let s ← Settings.initial.read? [.verbose] words
    return ⟨s.has .verbose, .file (← s.path?) .list⟩
  else if name = "repl".toList then do
    let s ← Settings.initial.read? [.verbose, .compat, .tokens] words
    guard s.paths.isEmpty
    return ⟨s.has .verbose, .session s.options (s.has .tokens)⟩
  else none

/-- The command of all words.  In front of its name only the verbose switch may
stand, and once; it may stand behind the name as well. -/
def ofWords? : List Text → Option Invocation
  | [] => none
  | word :: words =>
    if word = "-v".toList ∨ word = "--verbose".toList then
      match words with
      | [] => none
      | name :: words => (ofCommand? name words).map fun i => { i with verbose := true }
    else ofCommand? word words

end Invocation

end Recipe.CommandLine
