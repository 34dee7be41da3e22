/-
# Command line options

    rpal [-h] [-ast] [-st] [-noout] [-i] [--debug] [--version] [script]

Options may stand before and after the script.  A long option may be cut short as long as no
other starts the same way, and short options of one letter may be joined.  `--` ends the
options.  What starts with a dash but is neither an option nor a negative number, and every
argument after the script, is unrecognized.
-/
import Rpal.Text.Digit
import Rpal.Text.Quoted

namespace Rpal.CommandLine

/-! ## 1. The options -/

/-- An option. -/
inductive Flag where
  | help | ast | st | noout | interactive | debug | version
  deriving DecidableEq

/-- The spellings of an option. -/
def Flag.spellings : Flag → List String
  | .help => ["-h", "--help"]
  | .ast => ["-ast", "--ast"]
  | .st => ["-st", "--st"]
  | .noout => ["-noout", "--noout"]
  | .interactive => ["-i", "--interactive"]
  | .debug => ["--debug"]
  | .version => ["--version"]

/-- The options in the order in which they are listed. -/
def Flag.all : List Flag :=
  [.help, .ast, .st, .noout, .interactive, .debug, .version]

/-- Every spelling with its option. -/
def spelled : List (String × Flag) :=
  Flag.all.flatMap fun flag => flag.spellings.map fun spelling => (spelling, flag)

/-- What the options and the script amount to. -/
structure Settings where
  script : Option String := none
  ast : Bool := false
  st : Bool := false
  noout : Bool := false
  interactive : Bool := false
  debug : Bool := false

/-- What a command line asks for. -/
inductive Request where
  | run (settings : Settings)
  | help
  | version
  /-- The command line is wrong. -/
  | refuse (message : String)

/-! ## 2. Single arguments -/

/-- What an argument is. -/
inductive Argument where
  | positional (text : String)
  /-- The mark that ends the options. -/
  | separator
  /-- An option by one of its spellings, perhaps with text attached. -/
  | option (flag : Flag) (spelling : String) (attached : Option String)
  | unknown (text : String)
  | ambiguous (text : String) (spellings : List String)

/-- Whether a text starts with another. -/
def startsWith (start text : String) : Bool :=
  start.toList.isPrefixOf text.toList

/-- A text cut at its first equals sign. -/
def cutAtEquals (text : String) : Option (String × String) :=
  let cs := text.toList
  if cs.contains '=' then
    some (String.ofList (cs.takeWhile (· != '=')),
      String.ofList ((cs.dropWhile (· != '=')).drop 1))
  else none

/-- Whether a text is a negative number. -/
def isNegativeNumber (text : String) : Bool :=
  match text.toList with
  | '-' :: cs =>
    let fraction := (cs.dropWhile Text.isDigit).drop 1
    (!cs.isEmpty && cs.all Text.isDigit) ||
      ((cs.dropWhile Text.isDigit).head? = some '.' && !fraction.isEmpty &&
        fraction.all Text.isDigit)
  | _ => false

/-- The options that a text can stand for, each with its spelling and the text attached. -/
def candidates (text : String) : List (Flag × String × Option String) :=
  match text.toList with
  | '-' :: '-' :: _ =>
    let (start, attached) := match cutAtEquals text with
      | some (start, attached) => (start, some attached)
      | none => (text, none)
    spelled.filterMap fun (spelling, flag) =>
      if startsWith start spelling then some (flag, spelling, attached) else none
  | dash :: letter :: rest =>
    spelled.filterMap fun (spelling, flag) =>
      if spelling = String.ofList [dash, letter] then
        some (flag, spelling, some (String.ofList rest))
      else if startsWith text spelling then some (flag, spelling, none)
      else none
  | _ => []

/-- The reading of an argument that starts with a dash and is no spelling of an option. -/
def classifyDashed (text : String) : Argument :=
  match candidates text with
  | [(flag, spelling, attached)] => .option flag spelling attached
  | [] =>
    if isNegativeNumber text || text.toList.contains ' ' then .positional text else .unknown text
  | several => .ambiguous text (several.map fun (_, spelling, _) => spelling)

/-- The reading of an argument before the end of the options. -/
def classify (text : String) : Argument :=
  if text = "--" then .separator
  else if text.toList.head? ≠ some '-' || text.length = 1 then .positional text
  else match spelled.lookup text with
    | some flag => .option flag text none
    | none =>
      match cutAtEquals text with
      | some (start, attached) =>
        match spelled.lookup start with
        | some flag => .option flag start (some attached)
        | none => classifyDashed text
      | none => classifyDashed text

/-- The reading of all arguments. -/
def classifyAll : List String → List Argument
  | [] => []
  | text :: rest =>
    match classify text with
    | .separator => .separator :: rest.map .positional
    | argument => argument :: classifyAll rest

/-! ## 3. All arguments -/

/-- The refusal of text that is attached to an option. -/
def refuseAttached (flag : Flag) (attached : String) : Request :=
  .refuse ("argument " ++ "/".intercalate flag.spellings ++ ": ignored explicit argument " ++
    Text.quoted attached)

/-- The options that are joined in one argument.  Text attached to an option of one dash is
read as further options of one letter. -/
def joined (flag : Flag) (spelling : String) : List Char → Except Request (List Flag)
  | [] => .error (refuseAttached flag "")
  | letter :: rest =>
    if startsWith "--" spelling then .error (refuseAttached flag (String.ofList (letter :: rest)))
    else
      let next := String.ofList ['-', letter]
      match spelled.lookup next with
      | none => .error (refuseAttached flag (String.ofList (letter :: rest)))
      | some other =>
        match rest with
        | [] => .ok [flag, other]
        | rest => (joined other next rest).map (flag :: ·)

/-- Settings with an option added.  Help and version are requests of their own. -/
def Settings.add (s : Settings) : Flag → Except Request Settings
  | .help => .error .help
  | .version => .error .version
  | .ast => .ok { s with ast := true }
  | .st => .ok { s with st := true }
  | .noout => .ok { s with noout := true }
  | .interactive => .ok { s with interactive := true }
  | .debug => .ok { s with debug := true }

/-- Settings with the options of one argument added. -/
def Settings.addOption (s : Settings) (flag : Flag) (spelling : String) :
    Option String → Except Request Settings
  | none => s.add flag
  | some attached => do
    let flags ← joined flag spelling attached.toList
    flags.foldlM Settings.add s

/-- Reads the arguments from the left.  `waiting` tells that no script was met yet; `extra` holds
the unrecognized arguments, the last first. -/
def collect (waiting : Bool) (extra : List String) (s : Settings) : List Argument → Request
  | [] =>
    if extra.isEmpty then .run s
    else .refuse ("unrecognized arguments: " ++ " ".intercalate extra.reverse)
  | .positional text :: .separator :: rest =>
    if waiting then collect false extra { s with script := some text } rest
    else collect false ("--" :: text :: extra) s rest
  | .positional text :: rest =>
    if waiting then collect false extra { s with script := some text } rest
    else collect false (text :: extra) s rest
  | .separator :: rest =>
    if waiting then collect true extra s rest else collect false ("--" :: extra) s rest
  | .option flag spelling attached :: rest =>
    match s.addOption flag spelling attached with
    | .ok s => collect waiting extra s rest
    | .error request => request
  | .unknown text :: rest => collect waiting (text :: extra) s rest
  | .ambiguous text _ :: rest => collect waiting (text :: extra) s rest

/-- The refusal of the first argument that could be several options. -/
def ambiguity? (arguments : List Argument) : Option Request :=
  arguments.findSome? fun
    | .ambiguous text spellings =>
      some (.refuse ("ambiguous option: " ++ text ++ " could match " ++
        ", ".intercalate spellings))
    | _ => none

/-- What a command line asks for. -/
def request (argv : List String) : Request :=
  let arguments := classifyAll argv
  match ambiguity? arguments with
  | some refusal => refusal
  | none => collect true [] {} arguments

end Rpal.CommandLine
