import Recipe.Report

/-!
# Settings

What the words behind the name of a command set.  Switches with one letter may
share a hyphen, the format may stand behind its switch with or without `=`, and
`--` ends the switches.  No switch is given twice.
-/

namespace Recipe.CommandLine

inductive Switch where
  | verbose | compat | tokens | format
deriving DecidableEq, Repr

namespace Switch

def long : Switch → Text
  | .verbose => "verbose".toList
  | .compat => "compat".toList
  | .tokens => "tokens".toList
  | .format => "format".toList

def short? : Switch → Option Char
  | .verbose => some 'v'
  | .compat => none
  | .tokens => some 't'
  | .format => some 'f'

end Switch

structure Settings where
  given : List Switch
  format : Format
  paths : List Text
deriving DecidableEq, Repr

namespace Settings

/-- Nothing is set. -/
def initial : Settings := ⟨[], .text, []⟩

def give? (s : Settings) (w : Switch) : Option Settings :=
  if w ∈ s.given then none else some { s with given := w :: s.given }

def giveFormat? (s : Settings) (name : Text) : Option Settings := do
  let format ← Format.ofName? name
  let s ← s.give? .format
  return { s with format }

def addPaths (s : Settings) (paths : List Text) : Settings := { s with paths := s.paths ++ paths }

/-- Reads the letters behind a hyphen.  Behind the letter of the format stands
its name; if there is none, the name is still to come. -/
def readLetters? (allowed : List Switch) (s : Settings) : Text → Option (Settings × Bool)
  | [] => some (s, false)
  | c :: cs =>
    match allowed.find? fun w => w.short? = some c with
    | none => none
    | some .format =>
      match cs with
      | [] => some (s, true)
      | '=' :: name => (s.giveFormat? name).map (·, false)
      | name => (s.giveFormat? name).map (·, false)
    | some w => (s.give? w).bind fun s => readLetters? allowed s cs

/-- Reads the name behind two hyphens, and the value behind its `=`. -/
def readLong? (allowed : List Switch) (s : Settings) (t : Text) : Option (Settings × Bool) :=
  let (name, value?) :=
    match t.cut? '=' with
    | some (name, value) => (name, some value)
    | none => (t, none)
  match allowed.find? fun w => w.long = name with
  | none => none
  | some .format =>
    match value? with
    | some value => (s.giveFormat? value).map (·, false)
    | none => some (s, true)
  | some w => if value?.isSome then none else (s.give? w).map (·, false)

/-- Reads a word, and tells whether the name of a format has to follow. -/
def readWord? (allowed : List Switch) (s : Settings) : Text → Option (Settings × Bool)
  | '-' :: '-' :: t => readLong? allowed s t
  | '-' :: c :: cs => readLetters? allowed s (c :: cs)
  | path => some (s.addPaths [path], false)

/-- Reads all words. -/
def read? (allowed : List Switch) (s : Settings) : List Text → Option Settings
  | [] => some s
  | word :: words =>
    if word = ['-', '-'] then some (s.addPaths words)
    else
      match s.readWord? allowed word with
      | none => none
      | some (s, false) => read? allowed s words
      | some (s, true) =>
        match words with
        | [] => none
        | name :: words => (s.giveFormat? name).bind fun s => read? allowed s words

end Settings

end Recipe.CommandLine
