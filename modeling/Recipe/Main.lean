import Recipe.CommandLine.Outcome
import Recipe.Session

/-!
# The program

Files, the terminal and the exit code; what is done with them is decided
elsewhere.
-/

namespace Recipe.CommandLine

def usage : String :=
  "usage: recipe [-v] parse PATH [-f text|debug|json] [--compat]\n" ++
  "       recipe [-v] lex PATH\n" ++
  "       recipe [-v] repl [--compat] [-t]"

def printText (t : Text) : IO Unit := do
  let stdout ← IO.getStdout
  stdout.putStr (String.ofList t)
  stdout.flush

def reportLine (t : Text) : IO Unit := IO.eprintln (String.ofList t)

def reportFaults (fs : List Fault) : IO Unit :=
  fs.forM fun f => reportLine (f.position.text ++ ": ".toList ++ f.message)

/-- Why the system could not read a file. -/
def failureOf (e : IO.Error) : ReadFailure :=
  match e with
  | .noFileOrDirectory .. => .notFound
  | .permissionDenied .. => .permissionDenied
  | .inappropriateType _ code reason | .otherError code reason
  | .invalidArgument _ code reason | .resourceExhausted _ code reason =>
    -- Some calls of the system give the number with its sign turned.
    .ofCode (min code.toNat (-code).toNat) reason.toList
  | e => .other 0 (toString e).toList

def bytesOf (path : Text) : IO (Except ReadFailure (List UInt8)) := do
  try
    let bytes ← IO.FS.readBinFile (String.ofList path)
    return .ok bytes.toList
  catch e => return .error (failureOf e)

/-- Prints what a session answers to a chunk. -/
def printChunk (s : Session) (chunk : Text) : IO Unit := do
  if s.showTokens then printText (Token.listing (Token.ofSource chunk))
  let parsed := s.parse chunk
  printText parsed.program.written
  reportFaults parsed.faults

/-- Takes lines until one ends the session or there are no more. -/
partial def runSession (s : Session) (input : IO.FS.Stream) : IO Unit := do
  let line ← input.getLine
  if line.isEmpty then return
  let (answer, s) := s.push (line.toList.takeWhile fun c => c ≠ '\n')
  match answer with
  | .exit => return
  | .toggleTokens =>
    IO.println (if s.showTokens then "token echo on" else "token echo off")
    runSession s input
  | .incomplete => runSession s input
  | .chunk chunk =>
    printChunk s chunk
    runSession s input

def run (i : Invocation) : IO UInt32 := do
  match i.command with
  | .file path task =>
    if i.verbose then reportLine ("reading ".toList ++ path)
    let outcome := task.runFile (← bytesOf path)
    printText outcome.output
    outcome.headline?.forM reportLine
    reportFaults outcome.faults
    return UInt32.ofNat outcome.exitCode
  | .session options showTokens =>
    let user? ← IO.getEnv "USER"
    let username? ← IO.getEnv "USERNAME"
    let guest := Session.guest [user?.map String.toList, username?.map String.toList]
    printText ("Welcome ".toList ++ guest ++ "!\n".toList)
    runSession (.start options showTokens) (← IO.getStdin)
    return 0

end Recipe.CommandLine

open Recipe.CommandLine in
def main (args : List String) : IO UInt32 := do
  match Invocation.ofWords? (args.map String.toList) with
  | some i => run i
  | none =>
    IO.eprintln usage
    return UInt32.ofNat usageExitCode
