/-
# Reading rules

A rule reads some tokens from the front of a list and yields what it read, or fails at a
place in the text.  Rules are greedy and ordered:

* `either p q` tries `q` only where `p` fails, and if both fail the failure is the one that
  lies further on;
* `optional p` and `many p` never fail: where `p` fails they stop before it, however far `p`
  had come, and never reconsider what they have read.

`stop` is the place of a failure where no token is left.
-/
import Rpal.Token

namespace Rpal

/-- A rule yields a result and the tokens it left, or the place of its failure. -/
abbrev Rule (α : Type) := StateT (List Lexeme) (Except Nat) α

namespace Rule

variable {α β : Type}

/-- The rule that always fails. -/
def failAt (place : Nat) : Rule α := fun _ => .error place

/-- Reads one token of a class. -/
def accept (stop : Nat) (class? : Token → Option α) : Rule α
  | [] => .error stop
  | l :: rest =>
    match class? l.token with
    | some a => .ok (a, rest)
    | none => .error l.start

/-- Reads a symbol. -/
def symbol (stop : Nat) (s : Symbol) : Rule Unit :=
  accept stop fun t => if t = .symbol s then some () else none

/-- Reads a keyword. -/
def keyword (stop : Nat) (w : Keyword) : Rule Unit
  | [] => .error stop
  | l :: rest => if l.token = .keyword w then .ok ((), rest) else .error (l.missOf w)

/-- The first of two rules that succeeds. -/
def either (p q : Rule α) : Rule α := fun ls =>
  match p ls with
  | .ok r => .ok r
  | .error i =>
    match q ls with
    | .ok r => .ok r
    | .error j => .error (max i j)

/-- The first of several rules that succeeds. -/
def oneOf (p : Rule α) : List (Rule α) → Rule α
  | [] => p
  | q :: qs => either p (oneOf q qs)

/-- A rule that may be absent. -/
def optional (p : Rule α) : Rule (Option α) := fun ls =>
  match p ls with
  | .ok (a, rest) => .ok (some a, rest)
  | .error _ => .ok (none, ls)

/-- What a rule yields when it is repeated as long as it succeeds, at most `room` times. -/
def repeated (p : Rule α) : Nat → List Lexeme → List α × List Lexeme
  | 0, ls => ([], ls)
  | room + 1, ls =>
    match p ls with
    | .ok (a, rest) =>
      let (as, rest) := repeated p room rest
      (a :: as, rest)
    | .error _ => ([], ls)

/-- A rule repeated as long as it succeeds.  `room` bounds the number of repetitions; it is
enough if it bounds the number of tokens and every repetition reads one. -/
def many (room : Nat) (p : Rule α) : Rule (List α) := fun ls =>
  .ok (repeated p room ls)

/-- A rule repeated at least once. -/
def many1 (room : Nat) (p : Rule α) : Rule (List α) := do
  let first ← p
  let rest ← many room p
  pure (first :: rest)

/-- Repetition yields at most as many results as it has room for. -/
theorem length_repeated_le (p : Rule α) (room : Nat) (ls : List Lexeme) :
    (repeated p room ls).1.length ≤ room := by
  fun_induction repeated p room ls with
  | case1 => simp
  | case2 room ls a rest hp as rest' hr ih =>
    simp only [hr] at ih
    simp only [List.length_cons]
    omega
  | case3 => simp

end Rule

end Rpal
