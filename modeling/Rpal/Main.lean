/-
# The interpreter as a command

Only this module reads and writes: it takes the arguments, the script file and the lines of the
user, and prints what the pure modules answer.  It cannot ask how much stack is left, so it takes
the host for unbounded.
-/
import Rpal.CommandLine

namespace Rpal.Main

/-- The number of machine steps that one program may take. -/
def budget : Nat := 1000000000000000000

/-- What is found under the name of a file. -/
def readFile (name : String) : IO CommandLine.Contents := do
  try
    let bytes ← IO.FS.readBinFile name
    pure (.bytes bytes.toList)
  catch
    | .permissionDenied .. => pure .unreadable
    | _ => pure .missing

/-- The exit code of an ending. -/
def exitCode : Ending → UInt32
  | .exit code => code.toUInt32
  | .broken _ => 1
  | .unfinished => 1

/-- Prints a transcript. -/
def emit (t : Transcript) : IO UInt32 := do
  IO.print t.stdout
  IO.eprint t.stderr
  pure (exitCode t.ending)

/-- Converses with the user, line by line. -/
partial def converse (debug : Bool) : IO UInt32 := do
  let stdin ← IO.getStdin
  let stdout ← IO.getStdout
  IO.print Interactive.prompt
  stdout.flush
  let text ← stdin.getLine
  if text.isEmpty then
    IO.print Interactive.farewell
    pure 0
  else
    let line := String.ofList (text.toList.takeWhile (· != '\n'))
    match Interactive.respond .unbounded budget debug line with
    | .quit => pure 0
    | .print answer =>
      IO.print answer
      converse debug
    | .broken answer _ =>
      IO.print answer
      pure 1
    | .unfinished => pure 1

end Rpal.Main

/-- Runs a command line. -/
def main (args : List String) : IO UInt32 := do
  match Rpal.CommandLine.plan args with
  | .print transcript => Rpal.Main.emit transcript
  | .script settings script =>
    let contents ← Rpal.Main.readFile script
    Rpal.Main.emit (Rpal.CommandLine.runFile .unbounded Rpal.Main.budget settings script contents)
  | .converse lead debug =>
    IO.print lead
    IO.print (Rpal.Interactive.greeting false debug)
    Rpal.Main.converse debug
