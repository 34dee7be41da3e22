/-
# Lines and positions

Two notions of a line meet in an error report.  *Line numbers and columns* count line feeds
only: the line of an offset is one more than the number of line feeds before it, and its
column is one more than the number of characters since the last of them.  The *rows* of an
excerpt come from splitting the text at every character that ends a line on a display:

    LF  CR  CR LF  VT  FF  U+001C  U+001D  U+001E  U+0085  U+2028  U+2029

An offset may be negative; it then counts from the end of the text.
-/
namespace Rpal.Text

/-! ## 1. Rows -/

/-- Whether a character ends a row. -/
def isRowEnd (c : Char) : Bool :=
  c = '\n' || c = '\r' || c = '\x0b' || c = '\x0c' || c = '\x1c' || c = '\x1d' || c = '\x1e' ||
    c.toNat = 0x85 || c.toNat = 0x2028 || c.toNat = 0x2029

/-- The rows of a text whose first characters, in reverse, are `current`. -/
def rowsFrom (current : List Char) : List Char → List (List Char)
  | [] => if current.isEmpty then [] else [current.reverse]
  | '\r' :: '\n' :: rest => current.reverse :: rowsFrom [] rest
  | c :: rest =>
    if isRowEnd c then current.reverse :: rowsFrom [] rest else rowsFrom (c :: current) rest

/-- The rows of a text, without the characters that end them.  A text that ends with such a
character has no empty row after it. -/
def rows (cs : List Char) : List (List Char) :=
  rowsFrom [] cs

/-! ## 2. Line ends of files -/

/-- Carriage returns, alone or before a line feed, become line feeds. -/
def unifyNewlines : List Char → List Char
  | [] => []
  | '\r' :: '\n' :: rest => '\n' :: unifyNewlines rest
  | c :: rest => (if c = '\r' then '\n' else c) :: unifyNewlines rest

/-- No carriage return is left. -/
theorem cr_notMem_unifyNewlines (cs : List Char) : '\r' ∉ unifyNewlines cs := by
  fun_induction unifyNewlines cs with
  | case1 => simp
  | case2 rest ih => simp [ih]
  | case3 c rest _ ih =>
    simp only [List.mem_cons, ih, or_false]
    split
    · decide
    · exact fun h => ‹¬c = '\r'› h.symm

/-! ## 3. Positions -/

/-- The number of characters before an offset in a text of a given length. -/
def clampOffset (loc : Int) (length : Nat) : Nat :=
  if loc < 0 then (length + loc).toNat else min loc.toNat length

/-- The part of a text before an offset. -/
def before (loc : Int) (cs : List Char) : List Char :=
  cs.take (clampOffset loc cs.length)

/-- The part of a text from an offset on. -/
def after (loc : Int) (cs : List Char) : List Char :=
  cs.drop (clampOffset loc cs.length)

/-- An offset cuts a text in two. -/
theorem before_append_after (loc : Int) (cs : List Char) : before loc cs ++ after loc cs = cs :=
  List.take_append_drop _ _

/-- The line of an offset, from 1. -/
def lineNumber (loc : Int) (cs : List Char) : Nat :=
  1 + (before loc cs).count '\n'

/-- The index of the last line feed of a text, or -1. -/
def lastNewline (cs : List Char) : Int :=
  (cs.length : Int) - 1 - (cs.reverse.takeWhile (· != '\n')).length

/-- The column of an offset: its distance to the last line feed before it. -/
def columnNumber (loc : Int) (cs : List Char) : Int :=
  loc - lastNewline (before loc cs)

/-- Without a line feed the last one is placed right before the text. -/
theorem lastNewline_of_notMem {cs : List Char} (h : '\n' ∉ cs) : lastNewline cs = -1 := by
  have hrun : ∀ ds : List Char, '\n' ∉ ds → ds.takeWhile (· != '\n') = ds := by
    intro ds hds
    induction ds with
    | nil => rfl
    | cons d ds ih =>
      have hd : d ≠ '\n' := fun e => hds (by simp [e])
      simp [hd, ih (fun hm => hds (List.mem_cons_of_mem _ hm))]
  have := congrArg List.length (hrun cs.reverse (fun hm => h (List.mem_reverse.mp hm)))
  simp only [List.length_reverse] at this
  simp only [lastNewline, this]
  omega

/-- After a line feed the column starts again. -/
theorem lastNewline_append_singleton (cs : List Char) :
    lastNewline (cs ++ ['\n']) = cs.length := by
  simp [lastNewline]

end Rpal.Text
