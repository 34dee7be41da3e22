/-
# Escape sequences

A string literal keeps its text as written.  Only printing reads the escape sequences: `\n`,
`\t`, `\\` and `\'` stand for a line feed, a tab, a backslash and a quote.  A backslash before
anything else stands for itself.
-/
namespace Rpal.Text

/-- The character that a backslash and `c` stand for. -/
def escaped? (c : Char) : Option Char :=
  if c = 'n' then some '\n'
  else if c = 't' then some '\t'
  else if c = '\\' then some '\\'
  else if c = '\'' then some '\''
  else none

/-- A text with its escape sequences replaced. -/
def interpretEscapes : List Char → List Char
  | [] => []
  | '\\' :: c :: rest =>
    match escaped? c with
    | some e => e :: interpretEscapes rest
    | none => '\\' :: interpretEscapes (c :: rest)
  | c :: rest => c :: interpretEscapes rest

/-- A text without backslashes prints as it is. -/
theorem interpretEscapes_eq_self {cs : List Char} (h : '\\' ∉ cs) : interpretEscapes cs = cs := by
  fun_induction interpretEscapes cs with
  | case1 => rfl
  | case2 => simp at h
  | case3 => simp at h
  | case4 c rest _ ih => rw [ih (fun hm => h (List.mem_cons_of_mem _ hm))]

end Rpal.Text
