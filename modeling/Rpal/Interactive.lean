/-
# The interactive mode

Every line is a whole program, evaluated on its own: no line sees what an earlier one bound.
`:ast` and `:st` show the tree of a program before and after standardizing, `:help` lists the
commands, `:quit` and `:q` end the session, and so do an interrupt and the end of the input.

A program that the host has not enough stack for is answered by a line that says so.
-/
import Rpal.Host

namespace Rpal

/-- How a conversation or a command ends. -/
inductive Ending where
  | exit (code : Nat)
  /-- A breakdown of the machine ends everything. -/
  | broken (breakdown : Breakdown)
  /-- The budget of steps was used up. -/
  | unfinished
  deriving DecidableEq

/-- What is written, and how it ends. -/
structure Transcript where
  stdout : String
  stderr : String := ""
  ending : Ending

namespace Transcript

/-- Puts text in front of what is written. -/
def after (text : String) (t : Transcript) : Transcript :=
  { t with stdout := text ++ t.stdout }

end Transcript

namespace Interactive

/-- A line typed by the user, or an interrupt. -/
inductive Input where
  | line (text : String)
  | interrupt

/-! ## 1. Texts -/

/-- The name and version of the interpreter. -/
def version : String := "RPAL v0.1.0 (CSE Machine)"

/-- The greeting.  `lineEditing` tells whether lines can be edited and completed. -/
def greeting (lineEditing debug : Bool) : String :=
  Program.unlines <|
    [version ++ " - Interactive Mode", "Type ':quit' to exit, ':help' for commands"] ++
      (if lineEditing then ["History and Tab completion are available"] else []) ++
      (if debug then ["Debug mode enabled"] else []) ++ [""]

/-- The prompt. -/
def prompt : String := "rpal> "

/-- The farewell after an interrupt or at the end of the input. -/
def farewell : String := "\nGoodbye!\n"

/-- The list of commands. -/
def help : String :=
  Program.unlines [
    "REPL Commands:",
    "  :ast <expr>       - Show the abstract syntax tree",
    "  :st <expr>        - Show the standardized tree",
    "  :help             - Show this help",
    "  :quit             - Exit REPL",
    "",
    "Each line is a complete RPAL program, for example:",
    "  let x = 5 in x + 1",
    "  let rec f n = n eq 0 -> 1 | n * f (n - 1) in f 5",
    "  Print (1, 'two', true)"]

/-- The report of a standardizing error. -/
def standardizeReport (e : StandardizeError) : String :=
  "Standardization error: " ++ e.message ++ "\n"

/-- The report of a fault. -/
def faultReport (f : Fault) : String :=
  Program.unlines ["", "Runtime Error:", "  " ++ f.message, ""]

/-- What is printed for a line whose program runs out of stack. -/
def tooDeep : String := "Error: expression nested too deeply to evaluate\n"

/-! ## 2. Answers -/

/-- The answer to a line. -/
inductive Answer where
  | quit
  /-- The text is printed and the conversation goes on. -/
  | print (text : String)
  /-- The text is printed and the conversation breaks down. -/
  | broken (text : String) (breakdown : Breakdown)
  | unfinished

/-- Puts text in front of what an answer prints. -/
def Answer.after (text : String) : Answer → Answer
  | .quit => .quit
  | .print more => .print (text ++ more)
  | .broken more b => .broken (text ++ more) b
  | .unfinished => .unfinished

/-- Reads a program and goes on with its tree. -/
def read (host : Host) (debug : Bool) (source : String) (next : Tree → Answer) : Answer :=
  match host.parse Program.unnamed source with
  | .tooDeep => .print tooDeep
  | .done (.error e) => .print (e.report ++ "\n")
  | .done (.ok t) =>
    (next t).after (if debug then Program.parseLog Program.unnamed (.ok t) else "")

/-- A tree as it is shown. -/
def treeView (host : Host) (t : Tree) : String :=
  if host.fits (.outline t) then t.outline else tooDeep

/-- The standard form of a tree as it is shown. -/
def standardView (host : Host) (debug : Bool) (t : Tree) : String :=
  (if debug then host.log 0 [(.view t, fun _ => Program.standardizeLines t)] else "") ++
    if host.fits (.view t) then
      match t.standardize with
      | .ok standard => treeView host standard
      | .error e => standardizeReport e
    else tooDeep

/-- What is shown of the value of a program. -/
def valueView (host : Host) (v : Item) : String :=
  if host.fits (.print v) then "=> " ++ v.print ++ "\n" else tooDeep

/-- Evaluates a tree and shows its output and its value. -/
def evaluateTree (host : Host) (budget : Nat) (debug : Bool) (t : Tree) : Answer :=
  let log := if debug then host.evaluateLog budget t else ""
  match host.evaluate budget t with
  | .tooDeep => .print (log ++ tooDeep)
  | .done none => .unfinished
  | .done (some ⟨output, .ok v⟩) =>
    let printed := if output.isEmpty then "" else output ++ "\n"
    .print (log ++ printed ++ valueView host v)
  | .done (some ⟨_, .error (.parse e)⟩) => .print (log ++ e.report ++ "\n")
  | .done (some ⟨_, .error (.standardize e)⟩) => .print (log ++ standardizeReport e)
  | .done (some ⟨_, .error (.failure (.fault f))⟩) => .print (log ++ faultReport f)
  | .done (some ⟨_, .error (.failure (.breakdown b))⟩) => .broken log b

/-- What follows a lead in a text, if the text starts with it. -/
def afterLead? (lead text : String) : Option String :=
  if lead.toList.isPrefixOf text.toList then
    some (String.ofList (text.toList.drop lead.toList.length))
  else none

/-- The answer to a line. -/
def respond (host : Host) (budget : Nat) (debug : Bool) (text : String) : Answer :=
  let command := String.ofList (Text.trim text.toList)
  if command = ":quit" || command = ":q" then .quit
  else if command.isEmpty then .print ""
  else if command = ":help" then .print help
  else match afterLead? ":ast " text with
    | some source => read host debug source fun t => .print (treeView host t)
    | none =>
      match afterLead? ":st " text with
      | some source => read host debug source fun t => .print (standardView host debug t)
      | none => read host debug text (evaluateTree host budget debug)

/-! ## 3. Conversations -/

/-- What is written for a list of inputs, from the first prompt on. -/
def converse (host : Host) (budget : Nat) (debug : Bool) : List Input → Transcript
  | [] => { stdout := prompt ++ farewell, ending := .exit 0 }
  | .interrupt :: _ => { stdout := prompt ++ farewell, ending := .exit 0 }
  | .line text :: rest =>
    match respond host budget debug text with
    | .quit => { stdout := prompt, ending := .exit 0 }
    | .print answer => (converse host budget debug rest).after (prompt ++ answer)
    | .broken answer b => { stdout := prompt ++ answer, ending := .broken b }
    | .unfinished => { stdout := prompt, ending := .unfinished }

/-- A whole interactive session on a host. -/
def session (host : Host) (budget : Nat) (lineEditing debug : Bool) (inputs : List Input) :
    Transcript :=
  (converse host budget debug inputs).after (greeting lineEditing debug)

/-- A whole interactive session that never runs out of stack. -/
def run (budget : Nat) (lineEditing debug : Bool) (inputs : List Input) : Transcript :=
  session .unbounded budget lineEditing debug inputs

/-! ## 4. Completion -/

/-- The words that can be completed: reserved words, built-in functions and commands. -/
def completions : List String :=
  Keyword.all.map Keyword.spelling ++ Builtin.all.map Builtin.name ++
    [":ast", ":st", ":help", ":quit"]

/-- The completions of the start of a word. -/
def complete (start : String) : List String :=
  completions.filter fun word => start.toList.isPrefixOf word.toList

end Interactive

end Rpal
