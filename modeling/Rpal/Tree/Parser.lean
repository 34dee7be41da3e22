/-
# The tree of a source text

A source text is read in three steps: its tabs are expanded, it is cut into tokens, and the
tokens are read as one expression that must reach to the end.  Where that fails, the failure
is a place in the expanded text.
-/
import Rpal.Grammar
import Rpal.Text.Tabs
import Rpal.Token.Scanner

namespace Rpal.Tree

/-- The tree of a scanned text. -/
def ofScan (scan : Scan) : Except Nat Tree :=
  match Grammar.phrase scan.stop (scan.lexemes.length + 1) .expression scan.lexemes with
  | .error place => .error place
  | .ok (t, []) => if scan.complete then .ok t else .error scan.stop
  | .ok (_, l :: _) => .error l.start

/-- The tree of a source text. -/
def ofText (cs : List Char) : Except Nat Tree :=
  ofScan (Scan.ofText (Text.expandTabs cs))

end Rpal.Tree
