/-
# Sessions

A session runs programs one after the other and can keep trees by name.  A kept tree is replaced
by its standard form when it is standardized and when it is run, so that a later use sees the
standard form.  A session that debugs collects what is printed on the way; keeping a tree prints
nothing.
-/
import Rpal.Program

namespace Rpal

/-- A session: whether it debugs, the trees it keeps, and the text printed so far. -/
structure Session where
  debug : Bool
  trees : List (String × Tree) := []
  log : String := ""

namespace Session

/-- Adds text to what was printed, if the session debugs. -/
def note (text : String) (s : Session) : Session :=
  if s.debug then { s with log := s.log ++ text } else s

/-- The kept tree of a name. -/
def tree? (name : String) (s : Session) : Option Tree :=
  s.trees.lookup name

/-- Keeps a tree under a name. -/
def keep (name : String) (t : Tree) (s : Session) : Session :=
  { s with trees := (name, t) :: s.trees }

/-- Evaluates a tree. -/
def evaluate (budget : Nat) (t : Tree) (s : Session) : Option Outcome × Session :=
  let s := if s.debug then s.note (Program.evaluateLog budget t) else s
  (Program.evaluate budget t, s)

/-- Evaluates what was read, or reports why it was not. -/
def evaluateRead (budget : Nat) (filename : String) (read : Except ParseError Tree) (s : Session) :
    Option Outcome × Session :=
  let s := s.note (Program.parseLog filename read)
  match read with
  | .ok t => s.evaluate budget t
  | .error e => (some ⟨"", .error (.parse e)⟩, s)

/-- Runs a source text. -/
def run (budget : Nat) (source : String) (s : Session) : Option Outcome × Session :=
  s.evaluateRead budget Program.unnamed (Program.parse Program.unnamed source)

/-- Runs a source file. -/
def runFile (budget : Nat) (filename : String) (contents : Option (List UInt8)) (s : Session) :
    Option Outcome × Session :=
  s.evaluateRead budget filename (Program.parseFile filename contents)

/-- Reads a source text and keeps its tree. -/
def parse (name source : String) (s : Session) : Except ParseError Tree × Session :=
  match Program.parse Program.unnamed source with
  | .ok t => (.ok t, s.keep name t)
  | .error e => (.error e, s)

/-- Standardizes a kept tree. -/
def standardize (name : String) (t : Tree) (s : Session) :
    Except StandardizeError Tree × Session :=
  let s := if s.debug then s.note (Program.standardizeLog t) else s
  match t.standardize with
  | .ok standard => (.ok standard, s.keep name standard)
  | .error e => (.error e, s)

/-- Runs a kept tree. -/
def runTree (budget : Nat) (name : String) (t : Tree) (s : Session) : Option Outcome × Session :=
  let (outcome, s) := s.evaluate budget t
  match t.standardize with
  | .ok standard => (outcome, s.keep name standard)
  | .error _ => (outcome, s)

end Session

end Rpal
