import Recipe.CommandLine.Command
import Recipe.Text.Blank
import Recipe.Text.Utf8

/-!
# Outcomes

How a command on a file ends.  A program is printed only if its text has no
faults, and without the blank characters at its end.
-/

namespace Recipe.CommandLine

/-- Why a file cannot be read. -/
inductive ReadFailure where
  | notFound
  | permissionDenied
  | notADirectory
  | isADirectory
  | nameTooLong
  | other (code : Nat) (message : Text)
deriving DecidableEq, Repr

namespace ReadFailure

/-- The failure that the system numbers `code` and explains by `reason`. -/
def ofCode (code : Nat) (reason : Text) : ReadFailure :=
  match code with
  | 2 => .notFound
  | 13 => .permissionDenied
  | 20 => .notADirectory
  | 21 => .isADirectory
  | 36 => .nameTooLong
  | _ => .other code reason

/-- The number the system gives the failure. -/
def code : ReadFailure → Nat
  | .notFound => 2
  | .permissionDenied => 13
  | .notADirectory => 20
  | .isADirectory => 21
  | .nameTooLong => 36
  | .other code _ => code

def kind : ReadFailure → Text
  | .notFound => "NotFound".toList
  | .permissionDenied => "PermissionDenied".toList
  | .notADirectory => "NotADirectory".toList
  | .isADirectory => "IsADirectory".toList
  | .nameTooLong => "InvalidFilename".toList
  | .other .. => "Uncategorized".toList

def reason : ReadFailure → Text
  | .notFound => "No such file or directory".toList
  | .permissionDenied => "Permission denied".toList
  | .notADirectory => "Not a directory".toList
  | .isADirectory => "Is a directory".toList
  | .nameTooLong => "File name too long".toList
  | .other _ message => message

def message (e : ReadFailure) : Text :=
  e.reason ++ " (os error ".toList ++ Text.ofNat e.code ++ [')']

/-- The failure with all its parts, on one line. -/
def listed (e : ReadFailure) : Text :=
  "Os \x7b code: ".toList ++ Text.ofNat e.code ++ ", kind: ".toList ++ e.kind ++
    ", message: ".toList ++ e.reason.quoted ++ " \x7d".toList

end ReadFailure

inductive Outcome where
  | printed (t : Text)
  | refused (faults : List Fault)
  | unreadable (e : ReadFailure)
deriving DecidableEq, Repr

namespace Outcome

/-- What the command writes to its output. -/
def output : Outcome → Text
  | .printed t => t
  | _ => []

def exitCode : Outcome → Nat
  | .printed _ => 0
  | _ => 1

def faults : Outcome → List Fault
  | .refused faults => faults
  | _ => []

/-- The first line of what the command reports, if there is anything to
report. -/
def headline? : Outcome → Option Text
  | .printed _ => none
  | .refused _ => some "SyntaxError:".toList
  | .unreadable e => some ("Error: ".toList ++ e.listed)

end Outcome

/-- The exit code of words that are no command. -/
def usageExitCode : Nat := 2

/-- Does a task with the text of a file. -/
def Task.run : Task → Text → Outcome
  | .print o format, source =>
    let parsed := parse o source
    if parsed.isOk then .printed (Text.trimEnd (parsed.program.print format) ++ ['\n'])
    else .refused parsed.faults
  | .list, source => .printed (Token.listing (Token.ofSource source))

/-- Does a task with the bytes of a file, if they can be read. -/
def Task.runFile (task : Task) : Except ReadFailure (List UInt8) → Outcome
  | .ok bytes => task.run (Text.ofBytes bytes)
  | .error e => .unreadable e

end Recipe.CommandLine
