/-
# Hosts

Two things about a program are not settled by the language.

* Reading a text, walking a tree, copying a value and printing one recurse over what they are
  given, and the stack of the host that runs the interpreter is finite.  A call whose argument is
  nested too deeply runs out of stack.
* What the report of a reading error says to have been expected comes from the parser library.

A `Host` answers both questions.  The phases of a program on a host are those of `Program` up to
the first call that runs out of stack, and what debugging printed until then stays printed.  The
host `Host.unbounded` never runs out, and its library does not tell what it expected; on it the
phases are exactly those of `Program` (`evaluate_unbounded`, `evaluateLog_unbounded`).
-/
import Rpal.Program

namespace Rpal

/-- A call that needs the more stack, the deeper its argument is nested. -/
inductive Call where
  /-- A source text is read. -/
  | parse (source : String)
  /-- A tree is printed. -/
  | outline (t : Tree)
  /-- A tree is standardized to be shown. -/
  | view (t : Tree)
  /-- A tree is standardized to be run. -/
  | standardize (t : Tree)
  /-- The control structures of a standardized tree are built. -/
  | build (t : Tree)
  /-- A control structure is run. -/
  | run (root : Closure)
  /-- A value is printed. -/
  | print (v : Item)

/-- What a program meets outside the language. -/
structure Host where
  /-- How many lines debugging has printed for a call when the stack runs out in it; nothing, if
  the call comes to its end. -/
  exhausted? : Call → Option Nat
  /-- What the parser library says about a text that cannot be read on from a place. -/
  message : String → Nat → String

/-- What comes of calls on a host: a result, unless one of them runs out of stack. -/
inductive Attempt (α : Type) where
  | done (result : α)
  | tooDeep

namespace Program

/-- The calls of an evaluation, one after the other, each with the lines that debugging prints for
it within a budget of steps. -/
def calls (t : Tree) : List (Call × (Nat → List String)) :=
  (.standardize t, fun _ => standardizeLines t) ::
    match t.standardize with
    | .error _ => []
    | .ok standard =>
      (.build standard, fun _ => structuresLines standard) ::
        match Control.structures standard with
        | .error _ => []
        | .ok structures =>
          let root := Control.root structures
          [(.run root, fun budget => (Machine.start root).log budget)]

end Program

namespace Host

/-! ## 1. Calls on a host -/

/-- The call comes to its end. -/
def fits (host : Host) (c : Call) : Bool := (host.exhausted? c).isNone

/-- What debugging prints for calls that are made one after the other.  The call that runs out of
stack is the last one; each step of a run prints a line, so that its first `n` lines are printed in
the first `n` steps. -/
def log (host : Host) (budget : Nat) : List (Call × (Nat → List String)) → String
  | [] => ""
  | (c, lines) :: rest =>
    match host.exhausted? c with
    | none => Program.unlines (lines budget) ++ host.log budget rest
    | some n => Program.unlines ((lines n).take n)

/-! ## 2. The phases of a program -/

/-- Reads a source text. -/
def parse (host : Host) (filename source : String) : Attempt (Except ParseError Tree) :=
  if host.fits (.parse source) then
    .done (Program.parseWith (host.message source) filename source)
  else .tooDeep

/-- Reads the contents of a source file. -/
def parseBytes (host : Host) (filename : String) (bytes : List UInt8) :
    Attempt (Except ParseError Tree) :=
  match Program.decode filename bytes with
  | .ok source => host.parse filename source
  | .error e => .done (.error e)

/-- Evaluates a tree, within a budget of steps. -/
def evaluate (host : Host) (budget : Nat) (t : Tree) : Attempt (Option Outcome) :=
  if (Program.calls t).all (host.fits ·.1) then .done (Program.evaluate budget t) else .tooDeep

/-- What debugging prints for an evaluation. -/
def evaluateLog (host : Host) (budget : Nat) (t : Tree) : String :=
  host.log budget (Program.calls t)

/-! ## 3. Two hosts -/

/-- The host that never runs out of stack and whose library does not tell what it expected. -/
def unbounded : Host where
  exhausted? _ := none
  message _ _ := ""

/-- The host whose stack holds so many levels of a tree that is printed or standardized.  The other
calls come to their end on it: it is the host of programs without many brackets, whose functions
and values are not nested deeply. -/
def ofLevels (levels : Nat) : Host where
  exhausted?
    | .outline t | .view t | .standardize t => if t.height ≤ levels then none else some 0
    | .parse _ | .build _ | .run _ | .print _ => none
  message _ _ := ""

theorem parse_unbounded (filename source : String) :
    unbounded.parse filename source = .done (Program.parse filename source) := rfl

theorem evaluate_unbounded (budget : Nat) (t : Tree) :
    unbounded.evaluate budget t = .done (Program.evaluate budget t) := by
  simp [evaluate, fits, unbounded]

theorem evaluateLog_unbounded (budget : Nat) (t : Tree) :
    unbounded.evaluateLog budget t = Program.evaluateLog budget t := by
  unfold evaluateLog Program.evaluateLog Program.calls Program.standardizeLog Program.structuresLog
  cases t.standardize with
  | error e => simp only [log, unbounded, String.append_empty]
  | ok standard =>
    cases hcs : Control.structures standard <;>
      simp only [log, unbounded, hcs, String.append_empty]

end Host

end Rpal
