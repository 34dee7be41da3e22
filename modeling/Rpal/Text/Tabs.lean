/-
# Tabs

Before a source text is read, every tab in it, also one inside a string literal, is replaced
by blanks up to the next multiple of eight columns.  Columns start again after a line feed
and after a carriage return.
-/
namespace Rpal.Text

/-- The distance between tab stops. -/
def tabWidth : Nat := 8

/-- A text with its tabs expanded, from a given column on. -/
def expandTabsFrom (column : Nat) : List Char → List Char
  | [] => []
  | '\t' :: rest =>
    let gap := tabWidth - column % tabWidth
    List.replicate gap ' ' ++ expandTabsFrom (column + gap) rest
  | c :: rest =>
    c :: expandTabsFrom (if c = '\n' || c = '\r' then 0 else column + 1) rest

/-- A text with its tabs expanded. -/
def expandTabs (cs : List Char) : List Char :=
  expandTabsFrom 0 cs

/-- No tab is left. -/
theorem tab_notMem_expandTabs (cs : List Char) : '\t' ∉ expandTabs cs := by
  suffices h : ∀ column, '\t' ∉ expandTabsFrom column cs from h 0
  intro column
  fun_induction expandTabsFrom column cs with
  | case1 => simp
  | case2 column rest gap ih => simp [ih]
  | case3 column c rest hc ih =>
    simp only [List.mem_cons, ih, or_false]
    exact fun h => hc h.symm

/-- A text without tabs stays as it is, from any column on. -/
theorem expandTabsFrom_eq_self {cs : List Char} (h : '\t' ∉ cs) (column : Nat) :
    expandTabsFrom column cs = cs := by
  fun_induction expandTabsFrom column cs with
  | case1 => rfl
  | case2 => simp at h
  | case3 column c rest _ ih => rw [ih (fun hm => h (List.mem_cons_of_mem _ hm))]

/-- A text without tabs stays as it is. -/
theorem expandTabs_eq_self {cs : List Char} (h : '\t' ∉ cs) : expandTabs cs = cs :=
  expandTabsFrom_eq_self h 0

end Rpal.Text
