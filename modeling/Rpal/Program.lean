/-
# Programs

A program is a source text.  It is read into a tree, the tree is standardized and compiled into
control structures, and the machine runs the first of them:

    source  --parse-->  tree  --standardize-->  tree  --structures-->  closures  --run-->  value

Each phase can fail in its own way, and the text written before a failure is kept.  Beside each
phase stands the text that debugging prints for it.
-/
import Rpal.Control
import Rpal.Diagnosis
import Rpal.Machine.Trace
import Rpal.Text.Utf8
import Rpal.Tree.Parser

namespace Rpal

/-- Why a program has no value. -/
inductive Problem where
  | parse (error : ParseError)
  | standardize (error : StandardizeError)
  | failure (failure : Failure)

/-- What a program comes to: the text it wrote, and a value or a problem. -/
structure Outcome where
  output : String
  answer : Except Problem Item

namespace Program

/-- The file name of a source text that comes from no file. -/
def unnamed : String := "<input>"

/-! ## 1. Reading -/

/-- The tree of a source text.  `message` is what the parser library says about a place from which
it cannot read on; an error report lists what the message names as expected. -/
def parseWith (message : Nat → String) (filename source : String) : Except ParseError Tree :=
  match Tree.ofText source.toList with
  | .ok t => .ok t
  | .error place => .error (Diagnosis.parseError filename source (message place) place)

/-- The tree of a source text, read by a library that does not tell what it expected. -/
def parse (filename source : String) : Except ParseError Tree :=
  parseWith (fun _ => "") filename source

/-- The source text of a file, with its line ends unified. -/
def decode (filename : String) (bytes : List UInt8) : Except ParseError String :=
  match Text.decodeUtf8 bytes with
  | .ok cs => .ok (String.ofList (Text.unifyNewlines cs))
  | .error m => .error (.undecodableFile filename m.message)

/-- The tree of a source file; a file that does not exist has no contents. -/
def parseFile (filename : String) (contents : Option (List UInt8)) : Except ParseError Tree :=
  match contents with
  | none => .error (.missingFile filename)
  | some bytes =>
    match decode filename bytes with
    | .ok source => parse filename source
    | .error e => .error e

/-! ## 2. Running -/

/-- The control structure of the program that a tree writes. -/
def compile (t : Tree) : Except StandardizeError Closure :=
  match t.standardize with
  | .ok standard => (Control.structures standard).map Control.root
  | .error e => .error e

/-- Evaluates a tree, within a budget of steps. -/
def evaluate (budget : Nat) (t : Tree) : Option Outcome :=
  match compile t with
  | .error e => some ⟨"", .error (.standardize e)⟩
  | .ok root =>
    ((Machine.start root).run budget).map fun r => ⟨r.output, r.answer.mapError Problem.failure⟩

/-- Runs a source text, within a budget of steps. -/
def run (budget : Nat) (source : String) : Option Outcome :=
  match parse unnamed source with
  | .error e => some ⟨"", .error (.parse e)⟩
  | .ok t => evaluate budget t

/-! ## 3. What debugging prints -/

/-- Lines of text, each with its line end. -/
def unlines (lines : List String) : String :=
  String.join (lines.map (· ++ "\n"))

/-- The line for a tree that was read. -/
def parseLog (filename : String) : Except ParseError Tree → String
  | .ok t => unlines ["Parsed " ++ filename ++ ": root node " ++ t.kind.name]
  | .error _ => ""

/-- A line for every rule that is tried. -/
def standardizeLines (t : Tree) : List String :=
  t.attempts.map fun kind => "Standardizing: " ++ kind.name

/-- The lines of standardizing a tree. -/
def standardizeLog (t : Tree) : String :=
  unlines (standardizeLines t)

/-- A line for every control structure that is met. -/
def structuresLines (t : Tree) : List String :=
  (Control.metNames t).zipIdx.map fun (names, index) =>
    "Created control structure " ++ toString index ++ " binding " ++ Variable.quotedList names

/-- The lines of building the control structures of a tree. -/
def structuresLog (t : Tree) : String :=
  unlines (structuresLines t)

/-- The lines of an evaluation. -/
def evaluateLog (budget : Nat) (t : Tree) : String :=
  standardizeLog t ++
    match t.standardize with
    | .error _ => ""
    | .ok standard =>
      structuresLog standard ++
        match Control.structures standard with
        | .error _ => ""
        | .ok structures => unlines ((Machine.start (Control.root structures)).log budget)

end Program

end Rpal
