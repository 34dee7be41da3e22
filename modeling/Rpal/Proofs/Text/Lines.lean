/-
# The line of an offset

Line feeds cut a text into lines.  The line that contains an offset is the part of it before the
offset (`lineBefore`), whose length gives the column, and the part from the offset on
(`lineAfter`).  The rows of the text end at other characters too, and none comes after a line feed
at the very end; where neither matters, the row with the number of the line is the line
(`rows_getElem?_line`).
-/
import Mathlib.Data.List.Induction
import Mathlib.Data.List.TakeWhile
import Rpal.Text.Lines

namespace Rpal.Text

variable {cs front rest current : List Char} {p : ℕ}

/-! ## 1. Lines -/

/-- What the line of an offset holds before the offset. -/
def lineBefore (p : ℕ) (cs : List Char) : List Char :=
  ((cs.take p).reverse.takeWhile (· != '\n')).reverse

/-- What the line of an offset holds from the offset on. -/
def lineAfter (p : ℕ) (cs : List Char) : List Char :=
  (cs.drop p).takeWhile (· != '\n')

/-- The line that contains an offset; a line feed is at the end of its line. -/
def lineAt (p : ℕ) (cs : List Char) : List Char :=
  lineBefore p cs ++ lineAfter p cs

theorem clampOffset_natCast (p length : ℕ) : clampOffset p length = min p length := by
  unfold clampOffset
  split <;> omega

theorem before_natCast (p : ℕ) (cs : List Char) : before p cs = cs.take p := by
  rw [before, clampOffset_natCast, ← List.take_take, List.take_length]

theorem after_natCast (p : ℕ) (cs : List Char) : after p cs = cs.drop p := by
  rw [after, clampOffset_natCast]
  rcases Nat.le_total p cs.length with hp | hp
  · rw [Nat.min_eq_left hp]
  · rw [Nat.min_eq_right hp, List.drop_length, List.drop_eq_nil_of_le hp]

theorem lineNumber_natCast (p : ℕ) (cs : List Char) :
    lineNumber p cs = (cs.take p).count '\n' + 1 := by
  rw [lineNumber, before_natCast, Nat.add_comm]

/-- The column counts what the line holds before the offset. -/
theorem columnNumber_natCast (hp : p ≤ cs.length) :
    columnNumber p cs = (lineBefore p cs).length + 1 := by
  rw [columnNumber, before_natCast, lastNewline, lineBefore, List.length_reverse,
    List.length_take_of_le hp]
  omega

/-- An offset with nothing before it in its line is at the start of the text or behind a line
feed. -/
theorem lineBefore_eq_nil_iff (hp : p ≤ cs.length) :
    lineBefore p cs = [] ↔ p = 0 ∨ (cs.take p).getLast? = some '\n' := by
  rw [lineBefore, List.reverse_eq_nil_iff, ← List.head?_reverse]
  cases h : (cs.take p).reverse with
  | nil =>
    have hzero : p = 0 := by
      have := congrArg List.length h
      rw [List.length_reverse, List.length_take_of_le hp] at this
      exact this
    simp [hzero]
  | cons c front =>
    have hne : p ≠ 0 := by
      rintro rfl
      simp at h
    simp [List.takeWhile_cons, hne]

/-! ## 2. Rows -/

/-- A row holds no line feed. -/
theorem newline_notMem_rowsFrom (h : '\n' ∉ current) :
    ∀ row ∈ rowsFrom current cs, '\n' ∉ row := by
  fun_induction rowsFrom current cs with
  | case1 => simp
  | case2 current _ => simpa using h
  | case3 current rest ih =>
    simp only [List.mem_cons, forall_eq_or_imp, List.mem_reverse]
    exact ⟨h, ih List.not_mem_nil⟩
  | case4 current c rest _ hc ih =>
    simp only [List.mem_cons, forall_eq_or_imp, List.mem_reverse]
    exact ⟨h, ih List.not_mem_nil⟩
  | case5 current c rest _ hc ih =>
    refine ih fun hmem => ?_
    rcases List.mem_cons.mp hmem with rfl | hmem
    · exact hc (by decide)
    · exact h hmem

theorem rowsFrom_eq_nil_iff : rowsFrom current cs = [] ↔ cs = [] ∧ current = [] := by
  fun_induction rowsFrom current cs with
  | case1 current hcurrent => simpa using hcurrent
  | case2 current hcurrent => simpa using hcurrent
  | case3 => simp
  | case4 => simp
  | case5 current c rest _ _ ih => simp [ih]

theorem rowsFrom_newline (current rest : List Char) :
    rowsFrom current ('\n' :: rest) = current.reverse :: rowsFrom [] rest :=
  rfl

theorem rowsFrom_cons {c : Char} (hc : isRowEnd c = false) (current rest : List Char) :
    rowsFrom current (c :: rest) = rowsFrom (c :: current) rest := by
  rw [rowsFrom.eq_def]
  split
  · contradiction
  · rename_i heq
    cases heq
    cases hc
  · rename_i heq
    cases heq
    rw [if_neg (by rw [hc]; decide)]

/-- The row that is open behind a piece of text without row ends other than line feeds, in
reverse, if one was open in front of it. -/
def openRow (current : List Char) (front : List Char) : List Char :=
  front.foldl (fun current c => if c = '\n' then [] else c :: current) current

theorem openRow_nil (front : List Char) :
    openRow [] front = front.reverse.takeWhile (· != '\n') := by
  induction front using List.reverseRecOn with
  | nil => rfl
  | append_singleton front c ih =>
    rw [openRow, List.foldl_append, List.foldl_cons, List.foldl_nil,
      List.reverse_concat, List.takeWhile_cons, ← ih]
    by_cases hc : c = '\n'
    · simp [hc]
    · simp [hc, openRow]

/-- Every line feed of a piece of text ends a row. -/
theorem rowsFrom_append_getElem? (hfront : ∀ c ∈ front, isRowEnd c → c = '\n') :
    (rowsFrom current (front ++ rest))[front.count '\n']? =
      (rowsFrom (openRow current front) rest).head? := by
  induction front generalizing current with
  | nil => exact List.head?_eq_getElem?.symm
  | cons c front ih =>
    obtain ⟨hc, hfront⟩ := List.forall_mem_cons.mp hfront
    by_cases hnewline : c = '\n'
    · have hopen : openRow current (c :: front) = openRow [] front := by
        rw [openRow, List.foldl_cons, if_pos hnewline]
        rfl
      rw [hopen, hnewline, List.cons_append, rowsFrom_newline, List.count_cons_self,
        List.getElem?_cons_succ, ih hfront]
    · have hopen : openRow current (c :: front) = openRow (c :: current) front := by
        rw [openRow, List.foldl_cons, if_neg hnewline]
        rfl
      rw [List.cons_append, rowsFrom_cons (by simpa using mt hc hnewline),
        List.count_cons_of_ne hnewline, ih hfront, hopen]

/-- The row that is open goes on up to the next line feed; none is left at the end of the text. -/
theorem head?_rowsFrom (hrest : ∀ c ∈ rest.takeWhile (· != '\n'), isRowEnd c = false) :
    (rowsFrom current rest).head? =
      if rest = [] ∧ current = [] then none
      else some (current.reverse ++ rest.takeWhile (· != '\n')) := by
  induction rest generalizing current with
  | nil =>
    have hrows : rowsFrom current [] = if current.isEmpty then [] else [current.reverse] := rfl
    rw [hrows]
    by_cases hcurrent : current = []
    · simp [hcurrent]
    · simp [hcurrent]
  | cons c rest ih =>
    by_cases hnewline : c = '\n'
    · simp [hnewline, rowsFrom_newline]
    · have hrun : (c :: rest).takeWhile (· != '\n') = c :: rest.takeWhile (· != '\n') := by
        simp [hnewline]
      rw [hrun] at hrest ⊢
      obtain ⟨hc, hrest⟩ := List.forall_mem_cons.mp hrest
      rw [rowsFrom_cons hc, ih hrest]
      simp

/-- **The row with the number of the line is the line**, if no character other than a line feed
ends a row up to there; but there is none for the end of a text that ends with a line feed. -/
theorem rows_getElem?_line (hp : p ≤ cs.length)
    (hends : ∀ c ∈ cs.take p ++ lineAfter p cs, isRowEnd c → c = '\n') :
    (rows cs)[lineNumber p cs - 1]? =
      if p = cs.length ∧ lineBefore p cs = [] then none else some (lineAt p cs) := by
  obtain ⟨hfront, hrest⟩ := List.forall_mem_append.mp hends
  have hplain : ∀ c ∈ (cs.drop p).takeWhile (· != '\n'), isRowEnd c = false := by
    intro c hc
    have hne : c ≠ '\n' := by simpa using List.mem_takeWhile_imp hc
    simpa using mt (hrest c hc) hne
  have hrows : rows cs = rowsFrom [] (cs.take p ++ cs.drop p) := by
    rw [List.take_append_drop, rows]
  rw [hrows, lineNumber_natCast, Nat.add_sub_cancel, rowsFrom_append_getElem? hfront,
    head?_rowsFrom hplain, openRow_nil, lineAt, lineBefore, lineAfter]
  simp only [List.reverse_eq_nil_iff, List.drop_eq_nil_iff, hp.ge_iff_eq]

end Rpal.Text
