/-
# Variables

A variable is known by the text of an identifier.  A tree handed in from outside may leave that
text out; all such identifiers are then one variable, which no text names:

    identifier x     the variable `x`       shown as  x       quoted as  'x'
    no text          the variable `none`    shown as  None    quoted as  None

The two forms differ in print only when quoted, so a variable that happens to be called `None`
is still told apart from the missing one.
-/
import Rpal.Text.Quoted

namespace Rpal

/-- The text of an identifier, if it has one. -/
abbrev Variable := Option String

namespace Variable

/-- A variable as messages show it. -/
def shown (v : Variable) : String := v.getD "None"

/-- A variable as it stands in a list. -/
def quoted : Variable → String
  | none => "None"
  | some text => Text.quoted text

/-- Several variables between square brackets. -/
def quotedList (vs : List Variable) : String :=
  "[" ++ ", ".intercalate (vs.map quoted) ++ "]"

/-- The order of variables: the missing text first, then by their characters. -/
def atMost : Variable → Variable → Bool
  | none, _ => true
  | some _, none => false
  | some a, some b => decide (a ≤ b)

/-- A text is shown as it is. -/
@[simp] theorem shown_some (text : String) : shown (some text) = text := rfl

/-- The empty list of variables. -/
theorem quotedList_nil : quotedList [] = "[]" := by decide +kernel

end Variable

end Rpal
