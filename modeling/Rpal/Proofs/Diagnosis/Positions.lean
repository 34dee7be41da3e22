/-
# Lines and columns

A parse error gives its location in two ways, as an offset and as a line and a column.  With the
text cut into lines at its line feeds, the two say the same:

    location  =  lengths of the earlier lines, a line feed counted to each  +  column - 1

Columns go from 1 up to the place behind the last character of the line, where the line feed
stands.  Each line starts behind all places of the lines before it (`lineStart_add_lt`), so offsets
and places correspond one to one, and in the same order (`position_of_parseError`).
-/
import Mathlib.Data.Prod.Lex
import Rpal.Proofs.Diagnosis.Excerpt

namespace Rpal

namespace Text

variable {cs line : List Char} {p k i j c d : ℕ}

/-! ## 1. Lines -/

/-- What stands before, between and behind the line feeds of a text. -/
def lines (cs : List Char) : List (List Char) := cs.splitOn '\n'

theorem lines_cons_newline (cs : List Char) : lines ('\n' :: cs) = [] :: lines cs := by
  rw [lines, List.splitOn, List.splitOnP_cons_eq_if_modifyHead, if_pos (by decide)]
  rfl

theorem lines_cons_of_ne {c : Char} (hc : c ≠ '\n') (cs : List Char) :
    lines (c :: cs) = (lines cs).modifyHead (List.cons c) := by
  rw [lines, List.splitOn, List.splitOnP_cons_eq_if_modifyHead, if_neg (by simpa using hc)]
  rfl

/-- A line feed ends a line and begins another. -/
theorem length_lines (cs : List Char) : (lines cs).length = cs.count '\n' + 1 := by
  induction cs with
  | nil => rfl
  | cons c cs ih =>
    by_cases hc : c = '\n'
    · rw [hc, lines_cons_newline, List.length_cons, ih, List.count_cons_self]
    · rw [lines_cons_of_ne hc, List.length_modifyHead, ih, List.count_cons_of_ne hc]

/-- The offset of the first character of a line, the first line being line 0: it comes behind the
earlier lines, each with its line feed. -/
def lineStart (k : ℕ) (cs : List Char) : ℕ :=
  (((lines cs).take k).flatMap (· ++ ['\n'])).length

theorem lineStart_zero (cs : List Char) : lineStart 0 cs = 0 := rfl

theorem lineStart_succ (h : (lines cs)[k]? = some line) :
    lineStart (k + 1) cs = lineStart k cs + (line.length + 1) := by
  rw [lineStart, List.take_add_one, h, List.flatMap_append, List.length_append, lineStart,
    Option.toList_some, List.flatMap_singleton, List.length_append]
  rfl

theorem lineStart_mono (hij : i ≤ j) : lineStart i cs ≤ lineStart j cs := by
  obtain ⟨d, rfl⟩ := Nat.exists_eq_add_of_le hij
  rw [lineStart, lineStart, List.take_add, List.flatMap_append, List.length_append]
  exact Nat.le_add_right _ _

theorem lineStart_succ_cons_newline (k : ℕ) (cs : List Char) :
    lineStart (k + 1) ('\n' :: cs) = lineStart k cs + 1 := by
  rw [lineStart, lines_cons_newline, List.take_succ_cons, List.flatMap_cons, List.length_append,
    lineStart]
  exact Nat.add_comm _ _

/-- A further character in the first line moves the others. -/
theorem lineStart_succ_cons_of_ne {c : Char} (hc : c ≠ '\n') (k : ℕ) (cs : List Char) :
    lineStart (k + 1) (c :: cs) = lineStart (k + 1) cs + 1 := by
  rw [lineStart, lineStart, lines_cons_of_ne hc]
  have hne : lines cs ≠ [] := by
    intro hnil
    have := length_lines cs
    rw [hnil, List.length_nil] at this
    omega
  obtain ⟨line, rest, hlines⟩ := List.exists_cons_of_ne_nil hne
  simp only [hlines, List.modifyHead_cons, List.take_succ_cons, List.flatMap_cons,
    List.length_append, List.length_cons]
  omega

/-- Behind the last line there would be room for one more line feed. -/
theorem lineStart_length (cs : List Char) :
    lineStart (lines cs).length cs = cs.length + 1 := by
  induction cs with
  | nil => rfl
  | cons c cs ih =>
    rw [length_lines] at ih ⊢
    by_cases hc : c = '\n'
    · rw [hc, List.count_cons_self, lineStart_succ_cons_newline, ih, List.length_cons]
    · rw [List.count_cons_of_ne hc, lineStart_succ_cons_of_ne hc, ih, List.length_cons]

/-! ## 2. Places -/

/-- The place `c` characters behind the start of line `k` is in that line, or right behind it. -/
def InLine (k c : ℕ) (cs : List Char) : Prop :=
  ∃ line, (lines cs)[k]? = some line ∧ c ≤ line.length

/-- **A line starts behind all places of the lines before it.** -/
theorem lineStart_add_lt (h : InLine i c cs) (hij : i < j) :
    lineStart i cs + c < lineStart j cs := by
  obtain ⟨line, hline, hc⟩ := h
  have hnext := lineStart_succ hline
  have hmono : lineStart (i + 1) cs ≤ lineStart j cs := lineStart_mono hij
  omega

/-- The offsets of two places are in the order of the lines, and within a line in that of the
columns. -/
theorem lineStart_add_lt_iff (h : InLine i c cs) (h' : InLine j d cs) :
    lineStart i cs + c < lineStart j cs + d ↔ i < j ∨ i = j ∧ c < d := by
  rcases Nat.lt_trichotomy i j with hij | rfl | hij
  · have := lineStart_add_lt h hij
    omega
  · omega
  · have := lineStart_add_lt h' hij
    omega

theorem lineStart_add_inj (h : InLine i c cs) (h' : InLine j d cs) :
    lineStart i cs + c = lineStart j cs + d ↔ i = j ∧ c = d := by
  have hlt := lineStart_add_lt_iff h h'
  have hgt := lineStart_add_lt_iff h' h
  omega

/-- A place has an offset in the text, or right behind it. -/
theorem InLine.offset_le (h : InLine k c cs) : lineStart k cs + c ≤ cs.length := by
  obtain ⟨line, hline, -⟩ := id h
  have hend := lineStart_add_lt h (List.getElem?_eq_some_iff.mp hline).1
  rw [lineStart_length] at hend
  omega

theorem ne_newline_of_notMem (h : '\n' ∉ cs) : ∀ c ∈ cs.reverse, (c != '\n') = true := by
  intro c hc
  rw [bne_iff_ne]
  rintro rfl
  exact h (List.mem_reverse.mp hc)

/-- In the first line all characters before an offset are in its line. -/
theorem lineBefore_of_notMem (h : '\n' ∉ cs.take p) : lineBefore p cs = cs.take p := by
  rw [lineBefore, List.takeWhile_eq_self_iff.mpr (ne_newline_of_notMem h), List.reverse_reverse]

/-- Behind a line feed a line does not go back to the start of the text. -/
theorem lineBefore_cons_of_mem (h : '\n' ∈ cs.take p) (c : Char) :
    lineBefore (p + 1) (c :: cs) = lineBefore p cs := by
  have hstop : ((cs.take p).reverse.takeWhile (· != '\n')).length ≠ (cs.take p).reverse.length := by
    intro hlength
    have hall := List.takeWhile_eq_self_iff.mp ((List.takeWhile_prefix _).eq_of_length hlength)
    exact absurd (hall '\n' (List.mem_reverse.mpr h)) (by decide)
  rw [lineBefore, List.take_succ_cons, List.reverse_cons, List.takeWhile_append, if_neg hstop,
    lineBefore]

theorem lineBefore_cons_newline (p : ℕ) (cs : List Char) :
    lineBefore (p + 1) ('\n' :: cs) = lineBefore p cs := by
  by_cases h : '\n' ∈ cs.take p
  · exact lineBefore_cons_of_mem h '\n'
  · have hstart : ['\n'].takeWhile (· != '\n') = [] := by decide
    rw [lineBefore_of_notMem h, lineBefore, List.take_succ_cons, List.reverse_cons,
      List.takeWhile_append_of_pos (ne_newline_of_notMem h), hstart, List.append_nil,
      List.reverse_reverse]

/-- **The place of an offset**: its line is that behind the line feeds before it, and its column
counts what the line holds before it. -/
theorem inLine_of_le (hp : p ≤ cs.length) :
    InLine ((cs.take p).count '\n') (lineBefore p cs).length cs ∧
      lineStart ((cs.take p).count '\n') cs + (lineBefore p cs).length = p := by
  induction cs generalizing p with
  | nil =>
    obtain rfl : p = 0 := Nat.le_zero.mp hp
    exact ⟨⟨[], rfl, Nat.le_refl 0⟩, rfl⟩
  | cons c cs ih =>
    cases p with
    | zero =>
      have hlines : 0 < (lines (c :: cs)).length := by
        rw [length_lines]
        exact Nat.succ_pos _
      exact ⟨⟨_, List.getElem?_eq_getElem hlines, Nat.zero_le _⟩, rfl⟩
    | succ p =>
      obtain ⟨⟨line, hline, hle⟩, hoffset⟩ := ih (Nat.le_of_succ_le_succ hp)
      rw [List.take_succ_cons]
      by_cases hc : c = '\n'
      · rw [hc, List.count_cons_self, lineBefore_cons_newline, lineStart_succ_cons_newline]
        refine ⟨⟨line, ?_, hle⟩, by omega⟩
        rw [lines_cons_newline, List.getElem?_cons_succ, hline]
      · rw [List.count_cons_of_ne hc]
        by_cases hmem : '\n' ∈ cs.take p
        · -- the character is in an earlier line than the offset
          obtain ⟨k, hk⟩ := Nat.exists_eq_add_one.mpr (List.count_pos_iff.mpr hmem)
          rw [hk] at hline hoffset ⊢
          rw [lineBefore_cons_of_mem hmem, lineStart_succ_cons_of_ne hc]
          refine ⟨⟨line, ?_, hle⟩, by omega⟩
          rw [lines_cons_of_ne hc, List.getElem?_modifyHead_succ, hline]
        · -- the offset is still in the first line
          have hmem' : '\n' ∉ (c :: cs).take (p + 1) := by
            rw [List.take_succ_cons]
            exact List.not_mem_cons_of_ne_of_not_mem (Ne.symm hc) hmem
          rw [List.count_eq_zero.mpr hmem] at hline hoffset ⊢
          rw [lineBefore_of_notMem hmem] at hle hoffset
          rw [lineBefore_of_notMem hmem', lineStart_zero, List.take_succ_cons, List.length_cons]
          rw [lineStart_zero] at hoffset
          refine ⟨⟨c :: line, ?_, Nat.succ_le_succ hle⟩, by omega⟩
          rw [lines_cons_of_ne hc, List.getElem?_modifyHead_zero, hline, Option.map_some]

/-- Right behind a line feed the column is 1, which the distance to that line feed is as well. -/
theorem columnNumber_eq_ite (p : ℕ) (cs : List Char) :
    columnNumber p cs =
      if 0 < p ∧ p < cs.length ∧ cs[p - 1]? = some '\n' then 1
      else p - lastNewline (cs.take p) := by
  rw [columnNumber, before_natCast]
  split
  · rename_i h
    obtain ⟨hpos, hlt, hnewline⟩ := h
    obtain ⟨k, rfl⟩ := Nat.exists_eq_add_one.mpr hpos
    rw [Nat.add_sub_cancel] at hnewline
    rw [List.take_add_one, hnewline, Option.toList_some, lastNewline_append_singleton,
      List.length_take_of_le (by omega)]
    omega
  · rfl

/-- A line and a column, both from 1, within the text, and the offset of that place. -/
structure IsPlaceOf (line column offset : ℕ) (cs : List Char) : Prop where
  line_pos : 1 ≤ line
  line_le : line ≤ cs.count '\n' + 1
  column_pos : 1 ≤ column
  column_le : ∃ row, (lines cs)[line - 1]? = some row ∧ column ≤ row.length + 1
  offset_eq : lineStart (line - 1) cs + column - 1 = offset

section Places

variable {l c l' c' q : ℕ}

theorem IsPlaceOf.inLine (h : IsPlaceOf l c p cs) : InLine (l - 1) (c - 1) cs := by
  obtain ⟨row, hrow, hc⟩ := h.column_le
  exact ⟨row, hrow, by omega⟩

theorem isPlaceOf_of_inLine (h : InLine k c cs) :
    IsPlaceOf (k + 1) (c + 1) (lineStart k cs + c) cs := by
  obtain ⟨row, hrow, hc⟩ := h
  have hk : k < (lines cs).length := (List.getElem?_eq_some_iff.mp hrow).1
  rw [length_lines] at hk
  exact ⟨Nat.succ_pos k, hk, Nat.succ_pos c, ⟨row, hrow, Nat.succ_le_succ hc⟩, rfl⟩

/-- **Places are in the order of their offsets**, line by line and within a line from the left. -/
theorem IsPlaceOf.lt_iff (h : IsPlaceOf l c p cs) (h' : IsPlaceOf l' c' q cs) :
    toLex (l, c) < toLex (l', c') ↔ p < q := by
  have hlt := lineStart_add_lt_iff h.inLine h'.inLine
  rw [Prod.Lex.toLex_lt_toLex]
  obtain ⟨hl, -, hc, -, hp⟩ := h
  obtain ⟨hl', -, hc', -, hq⟩ := h'
  dsimp only
  omega

theorem IsPlaceOf.eq_iff (h : IsPlaceOf l c p cs) (h' : IsPlaceOf l' c' q cs) :
    (l, c) = (l', c') ↔ p = q := by
  have hinj := lineStart_add_inj h.inLine h'.inLine
  rw [Prod.mk.injEq]
  obtain ⟨hl, -, hc, -, hp⟩ := h
  obtain ⟨hl', -, hc', -, hq⟩ := h'
  omega

/-- The line number and the column number of an offset are its place. -/
theorem isPlaceOf_columnNumber (hp : p ≤ cs.length) :
    ∃ l c : ℕ, lineNumber p cs = l ∧ columnNumber p cs = c ∧ IsPlaceOf l c p cs := by
  obtain ⟨hline, hoffset⟩ := inLine_of_le hp
  have hplace := isPlaceOf_of_inLine hline
  rw [hoffset] at hplace
  refine ⟨_, _, lineNumber_natCast p cs, ?_, hplace⟩
  rw [columnNumber_natCast hp]
  rfl

end Places

end Text

/-! ## 3. Parse errors -/

namespace Diagnosis

open Text

variable (filename source message : String)

/-- The error has this location, line and column. -/
def Reports (e : ParseError) (line column location : ℕ) : Prop :=
  e.location = location ∧ e.line = line ∧ e.column = column

/-- An error reports the place of the offset, cut off at the end of the text. -/
theorem exists_reports (p : ℕ) :
    ∃ line column location : ℕ,
      Reports (parseError filename source message p) line column location ∧
        location = min p source.toList.length ∧ lineNumber location source.toList = line ∧
        columnNumber location source.toList = column ∧
        IsPlaceOf line column location source.toList := by
  have hle : min p source.toList.length ≤ source.toList.length := Nat.min_le_right _ _
  have hclamp : parseError filename source message p =
      parseError filename source message (min p source.toList.length : ℕ) := by
    have hmin : min (p : ℤ) source.toList.length =
        min ((min p source.toList.length : ℕ) : ℤ) source.toList.length := by omega
    rw [parseError, hmin, parseError]
  obtain ⟨hlocation, hline, hcolumn, -⟩ := parseError_of_le filename message hle
  obtain ⟨l, c, hl, hc, hplace⟩ := isPlaceOf_columnNumber hle
  rw [hclamp]
  exact ⟨l, c, _, ⟨hlocation, by rw [hline, hl], by rw [hcolumn, hc]⟩, rfl, hl, hc, hplace⟩

/-- An error has one location, line and column. -/
theorem Reports.unique {e : ParseError} {line column location line' column' location' : ℕ}
    (h : Reports e line column location) (h' : Reports e line' column' location') :
    line = line' ∧ column = column' ∧ location = location' := by
  obtain ⟨hlocation, hline, hcolumn⟩ := h
  obtain ⟨hlocation', hline', hcolumn'⟩ := h'
  omega

/-- The places of two errors are in the order of their locations. -/
structure InStep (e e' : ParseError) : Prop where
  lt_iff : toLex (e.line, e.column) < toLex (e'.line, e'.column) ↔ e.location < e'.location
  eq_iff : (e.line, e.column) = (e'.line, e'.column) ↔ e.location = e'.location

theorem inStep_parseError (filename' message' : String) (p q : ℕ) :
    InStep (parseError filename source message p) (parseError filename' source message' q) := by
  obtain ⟨l, c, k, ⟨hlocation, hline, hcolumn⟩, -, -, -, hplace⟩ :=
    exists_reports filename source message p
  obtain ⟨l', c', k', ⟨hlocation', hline', hcolumn'⟩, -, -, -, hplace'⟩ :=
    exists_reports filename' source message' q
  constructor
  · have hlt := hplace.lt_iff hplace'
    rw [hlocation, hline, hcolumn, hlocation', hline', hcolumn']
    rw [Prod.Lex.toLex_lt_toLex] at hlt ⊢
    dsimp only at hlt ⊢
    omega
  · have heq := hplace.eq_iff hplace'
    rw [hlocation, hline, hcolumn, hlocation', hline', hcolumn']
    rw [Prod.mk.injEq] at heq ⊢
    omega

/-- What is reported for some offset are the places of the text. -/
theorem isPlaceOf_iff_reports {line column location : ℕ} :
    IsPlaceOf line column location source.toList ↔
      ∃ p : ℕ, Reports (parseError filename source message p) line column location := by
  constructor
  · intro h
    -- the offset of the place is within the text, so the error there is not cut off
    have hle : location ≤ source.toList.length := by
      have hoffset := h.inLine.offset_le
      have hcolumn := h.column_pos
      have heq := h.offset_eq
      omega
    obtain ⟨l, c, k, hreports, hk, -, -, hplace⟩ :=
      exists_reports filename source message location
    obtain rfl : k = location := hk.trans (Nat.min_eq_left hle)
    obtain ⟨rfl, rfl⟩ := Prod.mk.inj ((hplace.eq_iff h).mpr rfl)
    exact ⟨k, hreports⟩
  · rintro ⟨p, hp⟩
    obtain ⟨l, c, k, hreports, -, -, -, hplace⟩ := exists_reports filename source message p
    obtain ⟨rfl, rfl, rfl⟩ := hp.unique hreports
    exact hplace

/-- **The reported line and column identify the location.**  They are the place of the offset, which
is cut off at the end of the text; a later location has a later place; and every place of the text
is reported for the offset that it has, and for no other. -/
theorem position_of_parseError (filename' message' : String) (p q : ℕ) :
    (∃ line column location : ℕ,
      Reports (parseError filename source message p) line column location ∧
      location = min p source.toList.length ∧
      line = 1 + (source.toList.take location).count '\n' ∧
      (column : ℤ) = (if 0 < location ∧ location < source.toList.length ∧
          source.toList[location - 1]? = some '\n' then 1
        else location - lastNewline (source.toList.take location)) ∧
      IsPlaceOf line column location source.toList) ∧
    InStep (parseError filename source message p) (parseError filename' source message' q) ∧
    ∀ line column location : ℕ, IsPlaceOf line column location source.toList ↔
      ∃ r : ℕ, Reports (parseError filename source message r) line column location := by
  obtain ⟨l, c, k, hreports, hk, hl, hc, hplace⟩ := exists_reports filename source message p
  refine ⟨⟨l, c, k, hreports, hk, ?_, ?_, hplace⟩,
    inStep_parseError filename source message filename' message' p q,
    fun _ _ _ => isPlaceOf_iff_reports filename source message⟩
  · rw [← hl, lineNumber_natCast, Nat.add_comm]
  · rw [← hc, columnNumber_eq_ite]

end Diagnosis

end Rpal
