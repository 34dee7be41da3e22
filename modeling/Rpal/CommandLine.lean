/-
# The command line

Without arguments the interpreter introduces itself and converses.  With a script it prints the
trees asked for, runs the script and prints its output.  With `-i` alone it converses, and with
other options alone it prints its help.

Files are given as a function from names to their contents, the lines of the user as a list, and
the host's stack as a `Host`, so a whole call is a function from these to a `Transcript`.  A script
that the stack does not suffice for ends with a line that says so, behind the trees that were
printed before.
-/
import Rpal.CommandLine.Options
import Rpal.Interactive

namespace Rpal.CommandLine

/-! ## 1. Texts -/

/-- The usage line. -/
def usage : String :=
  "usage: rpal [-h] [-ast] [-st] [-noout] [-i] [--debug] [--version] [script]\n"

/-- The help text. -/
def help : String :=
  usage ++ Program.unlines [
    "",
    "RPAL interpreter - standardizer and CSE machine",
    "",
    "positional arguments:",
    "  script             RPAL program file to execute",
    "",
    "options:",
    "  -h, --help         show this help message and exit",
    "  -ast, --ast        Print the abstract syntax tree before running",
    "  -st, --st          Print the standardized tree before running",
    "  -noout, --noout    Do not print the program output",
    "  -i, --interactive  Start interactive mode",
    "  --debug            Enable debug output for all stages",
    "  --version          show program's version number and exit",
    "",
    "Examples:",
    "  rpal program.rpal            # Run a program, print its output",
    "  rpal -ast program.rpal       # Print the abstract syntax tree, then run",
    "  rpal -st program.rpal        # Print the standardized tree, then run",
    "  rpal -ast -noout prog.rpal   # Print the tree only",
    "  rpal -i                      # Interactive mode",
    "  rpal --debug program.rpal    # Trace every phase",
    "        "]

/-- What the language is. -/
def introduction : String :=
  Program.unlines [
    "RPAL - Right-reference Pedagogic Algorithmic Language",
    "==================================================",
    "An applicative functional language with:",
    "• let / where / within / rec definitions",
    "• Curried functions and tuples",
    "• Evaluation on a CSE (control, stack, environment) machine",
    ""]

/-- What is printed before a conversation that nothing else was asked for. -/
def welcome : String :=
  introduction ++ Program.unlines [
    "Starting interactive mode...",
    "Use 'rpal --help' for command line options",
    ""]

/-- The report of a fault in a script. -/
def faultReport (script : String) (f : Fault) : String :=
  let rule := String.ofList (List.replicate 70 '=')
  Program.unlines [
    "", rule, "Runtime Error in '" ++ script ++ "'", rule,
    "", "Error: " ++ f.message,
    "", rule, ""]

/-! ## 2. Scripts -/

/-- A transcript that ends with an exit code. -/
def exits (stdout : String) (code : Nat) : Transcript :=
  { stdout, ending := .exit code }

/-- What is printed for a problem that ends a script. -/
def problemTranscript (script : String) : Problem → Transcript
  | .parse e => exits ("Parse error in '" ++ script ++ "': " ++ e.report ++ "\n") 1
  | .standardize e =>
    exits ("Standardization error in '" ++ script ++ "': " ++ e.message ++ "\n") 1
  | .failure (.fault f) => exits (faultReport script f) 1
  | .failure (.breakdown b) => { stdout := "", ending := .broken b }

/-- What is printed for a script that runs out of stack. -/
def tooDeep (script : String) : Transcript :=
  exits ("Error: '" ++ script ++ "' is nested too deeply to evaluate\n") 1

/-- Prints a tree and goes on. -/
def printTree (host : Host) (script : String) (t : Tree) (next : Transcript) : Transcript :=
  if host.fits (.outline t) then next.after t.outline else tooDeep script

/-- Runs the tree of a script and prints its output. -/
def runTree (host : Host) (budget : Nat) (s : Settings) (script : String) (t : Tree) :
    Transcript :=
  let log := if s.debug then host.evaluateLog budget t else ""
  Transcript.after log <|
    match host.evaluate budget t with
    | .tooDeep => tooDeep script
    | .done none => { stdout := "", ending := .unfinished }
    | .done (some ⟨output, .ok v⟩) =>
      if s.debug && !host.fits (.print v) then tooDeep script
      else
        exits ((if s.debug then "Result: " ++ v.print ++ "\n" else "") ++
          (if s.noout then "" else output ++ "\n")) 0
    | .done (some ⟨_, .error problem⟩) => problemTranscript script problem

/-- Shows the standard form of a tree and runs it. -/
def runStandard (host : Host) (budget : Nat) (s : Settings) (script : String) (t : Tree) :
    Transcript :=
  let view := (Call.view t, fun _ => Program.standardizeLines t)
  Transcript.after (if s.debug then host.log budget [view] else "") <|
    if host.fits (.view t) then
      match t.standardize with
      | .ok standard => printTree host script standard (runTree host budget s script standard)
      | .error e => problemTranscript script (.standardize e)
    else tooDeep script

/-- Shows the trees of a script that are asked for, and runs it. -/
def runRead (host : Host) (budget : Nat) (s : Settings) (script : String) (t : Tree) :
    Transcript :=
  let rest :=
    if s.st then runStandard host budget s script t else runTree host budget s script t
  if s.ast then printTree host script t rest else rest

/-- Runs a script whose contents are known. -/
def runScript (host : Host) (budget : Nat) (s : Settings) (script : String) (bytes : List UInt8) :
    Transcript :=
  match host.parseBytes script bytes with
  | .tooDeep => tooDeep script
  | .done (.error e) => problemTranscript script (.parse e)
  | .done (.ok t) =>
    (runRead host budget s script t).after
      (if s.debug then Program.parseLog script (.ok t) else "")

/-! ## 3. Calls -/

/-- What a call comes down to. -/
inductive Plan where
  /-- Something is printed and that is all. -/
  | print (transcript : Transcript)
  /-- A script is run. -/
  | script (settings : Settings) (script : String)
  /-- Text is printed and a conversation starts. -/
  | converse (lead : String) (debug : Bool)

/-- The plan of a call. -/
def plan (argv : List String) : Plan :=
  match request argv with
  | .help => .print (exits help 0)
  | .version => .print (exits (Interactive.version ++ "\n") 0)
  | .refuse message =>
    .print { stdout := "", stderr := usage ++ "rpal: error: " ++ message ++ "\n", ending := .exit 2 }
  | .run s =>
    if argv.isEmpty then .converse welcome false
    else
      match s.script with
      | some script => if script.isEmpty then unscripted s else .script s script
      | none => unscripted s
where
  /-- The plan of a call without a script. -/
  unscripted (s : Settings) : Plan :=
    if s.interactive then .converse "" s.debug
    else .print (exits (help ++ "\n" ++ introduction) 0)

/-- What is found under the name of a script. -/
inductive Contents where
  | missing
  /-- There is a file, and it may not be read. -/
  | unreadable
  | bytes (bytes : List UInt8)

/-- Runs a script, if its file exists and may be read. -/
def runFile (host : Host) (budget : Nat) (s : Settings) (script : String) : Contents → Transcript
  | .missing => exits ("Error: Script file '" ++ script ++ "' does not exist\n") 1
  | .unreadable => exits ("Error: cannot read '" ++ script ++ "' (permission denied)\n") 1
  | .bytes bytes => runScript host budget s script bytes

/-- A whole call on a host. -/
def call (host : Host) (budget : Nat) (lineEditing : Bool) (files : String → Contents)
    (inputs : List Interactive.Input) (argv : List String) : Transcript :=
  match plan argv with
  | .print transcript => transcript
  | .script s script => runFile host budget s script (files script)
  | .converse lead debug => (Interactive.session host budget lineEditing debug inputs).after lead

/-- A whole call that never runs out of stack, with files that may be read. -/
def run (budget : Nat) (lineEditing : Bool) (files : String → Option (List UInt8))
    (inputs : List Interactive.Input) (argv : List String) : Transcript :=
  call .unbounded budget lineEditing (fun name => (files name).elim .missing .bytes) inputs argv

end Rpal.CommandLine
