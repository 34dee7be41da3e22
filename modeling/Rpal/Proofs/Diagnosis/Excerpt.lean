/-
# The excerpt of a parse error

The context of a parse error is a piece of the source text, in numbered rows, with a row that holds
nothing but a caret:

       1 | let x = 5
       2 | in x
         |    ^

It points at an offset (`PointsAt`) if the caret row is the only one, stands right below the row
with the number of the offset's line, and has its caret below the offset's column, and if that
row shows the offset's line.

It does so if the row of the text with the line's number is that line, and if the number has at
most four digits (`pointsAt_iff`).  What remains is a text that ends with a line feed and
fails at its very end, which has no row to mark, a text with other row ends, whose rows are no
lines, and a number that moves its row to the right, but not the caret (`context_pointsAt`).
-/
import Mathlib.Data.List.Basic
import Rpal.Diagnosis
import Rpal.Proofs.Text.Lines

namespace Rpal.Diagnosis

open Text

variable {cs row caret : List Char} {line column : ℤ} {p : ℕ}

/-! ## 1. Rows of an excerpt -/

/-- A row with its number in front of it. -/
def numbered (number : ℕ) (row : List Char) : List Char :=
  (padNumber number).toList ++ " | ".toList ++ row

/-- The row that marks a column. -/
def caretRow (column : ℤ) : List Char :=
  List.replicate 5 ' ' ++ '|' :: ' ' :: (List.replicate (column - 1).toNat ' ' ++ ['^'])

/-- Whether a row has no number, and nothing but a caret. -/
def IsCaretRow (row : List Char) : Prop :=
  ∃ m n, row = List.replicate m ' ' ++ '|' :: ' ' :: (List.replicate n ' ' ++ ['^'])

theorem isCaretRow_caretRow (column : ℤ) : IsCaretRow (caretRow column) :=
  ⟨5, (column - 1).toNat, rfl⟩

theorem toList_padNumber (n : ℕ) :
    (padNumber n).toList =
      List.replicate (4 - (Nat.toDigits 10 n).length) ' ' ++ Nat.toDigits 10 n := by
  have hdigits : (toString n).toList = Nat.toDigits 10 n := by
    simp [toString, Nat.repr]
  rw [padNumber, String.toList_append, String.toList_ofList, ← String.length_toList, hdigits]

/-- A number fits in its place if it has at most four digits. -/
theorem length_padNumber_eq_iff (n : ℕ) : (padNumber n).toList.length = 4 ↔ n < 10000 := by
  rw [toList_padNumber, List.length_append, List.length_replicate]
  have hdigits : (Nat.toDigits 10 n).length ≤ 4 ↔ n < 10 ^ 4 :=
    Nat.length_toDigits_le_iff (by decide) (by decide)
  omega

/-- A numbered row is told from a caret row by the first character that is no blank. -/
theorem not_isCaretRow_numbered (number : ℕ) (row : List Char) :
    ¬ IsCaretRow (numbered number row) := by
  rintro ⟨m, n, h⟩
  have hblank : ∀ k, ∀ c ∈ List.replicate k ' ', (c == ' ') = true := by
    intro k c hc
    rw [List.eq_of_mem_replicate hc]
    rfl
  have hfirst := congrArg (List.dropWhile (· == ' ')) h
  rw [numbered, toList_padNumber, List.append_assoc, List.append_assoc,
    List.dropWhile_append_of_pos (hblank _), List.dropWhile_append_of_pos (hblank _)] at hfirst
  obtain ⟨d, digits, hdigits⟩ :=
    List.exists_cons_of_ne_nil (Nat.toDigits_ne_nil (b := 10) (n := number))
  have hd : d.isDigit := Nat.isDigit_of_mem_toDigits (by decide) (by decide)
    (hdigits ▸ List.mem_cons_self)
  have hne : d ≠ ' ' := by
    rintro rfl
    exact absurd hd (by decide)
  rw [hdigits, List.cons_append, List.dropWhile_cons_of_neg (by simpa using hne)] at hfirst
  rw [(List.cons.inj hfirst).1] at hd
  exact absurd hd (by decide)

/-! ## 2. The rows of an excerpt -/

/-- What an excerpt shows for a row of the text with its number. -/
def shown (line column radius : ℤ) (r : List Char × ℕ) : List (List Char) :=
  if line - radius ≤ r.2 ∧ r.2 ≤ line + radius then
    numbered r.2 r.1 :: if (r.2 : ℤ) = line then [caretRow column] else []
  else []

/-- The rows of an excerpt. -/
def excerptRows (cs : List Char) (line column radius : ℤ) : List (List Char) :=
  ((rows cs).zipIdx 1).flatMap (shown line column radius)

theorem map_toList_excerptRow (line column : ℤ) (r : List Char × ℕ) :
    (excerptRow line column r.2 r.1).map String.toList =
      numbered r.2 r.1 :: if (r.2 : ℤ) = line then [caretRow column] else [] := by
  have hrow : (padNumber r.2 ++ " | " ++ String.ofList r.1).toList = numbered r.2 r.1 := by
    simp only [String.toList_append, String.toList_ofList, numbered]
  have hcaret :
      ("     | " ++ String.ofList (List.replicate (column - 1).toNat ' ') ++ "^").toList =
        caretRow column := by
    simp [caretRow]
  rw [excerptRow, List.map_cons, hrow]
  split
  · rw [List.map_cons, List.map_nil, hcaret]
  · rw [List.map_nil]

theorem toList_excerpt (hcs : rows cs ≠ []) (line column radius : ℤ) :
    (excerpt cs line column radius).toList =
      ['\n'].intercalate (excerptRows cs line column radius) := by
  obtain ⟨r, rs, hrows⟩ := List.exists_cons_of_ne_nil hcs
  rw [excerpt, excerptRows, hrows, String.toList_intercalate, List.map_flatMap]
  refine congrArg (['\n'].intercalate) (congrArg (List.flatMap · _) (funext fun r => ?_))
  obtain ⟨row, number⟩ := r
  simp only [shown, Bool.and_eq_true, decide_eq_true_eq]
  split
  · exact map_toList_excerptRow line column (row, number)
  · rfl

/-- No row of an excerpt goes over a line feed. -/
theorem newline_notMem_excerptRows {radius : ℤ} (hrow : row ∈ excerptRows cs line column radius) :
    '\n' ∉ row := by
  obtain ⟨r, hr, hrow⟩ := List.mem_flatMap.mp hrow
  have hplain : '\n' ∉ r.1 :=
    newline_notMem_rowsFrom List.not_mem_nil _ (List.fst_mem_of_mem_zipIdx hr)
  have hnumber : '\n' ∉ (padNumber r.2).toList := by
    intro hmem
    rw [toList_padNumber] at hmem
    rcases List.mem_append.mp hmem with hmem | hmem
    · exact absurd (List.eq_of_mem_replicate hmem) (by decide)
    · exact absurd (Nat.isDigit_of_mem_toDigits (by decide) (by decide) hmem) (by decide)
  unfold shown at hrow
  split at hrow
  · rcases List.mem_cons.mp hrow with hrow | hrow
    · simp [hrow, numbered, hnumber, hplain]
    · split at hrow
      · simp [List.mem_singleton.mp hrow, caretRow]
      · exact absurd hrow List.not_mem_nil
  · exact absurd hrow List.not_mem_nil

/-- The rows of an excerpt are its lines. -/
theorem splitOn_excerpt (hcs : rows cs ≠ []) {radius : ℤ}
    (hne : excerptRows cs line column radius ≠ []) :
    (excerpt cs line column radius).toList.splitOn '\n' = excerptRows cs line column radius := by
  rw [toList_excerpt hcs]
  exact List.splitOn_intercalate _ (fun _ => newline_notMem_excerptRows) hne

/-- The caret row is below the row of the line. -/
theorem shown_isCaretRow {radius : ℤ} {r : List Char × ℕ}
    (hrow : row ∈ shown line column radius r) (hcaret : IsCaretRow row) :
    (r.2 : ℤ) = line ∧ row = caretRow column := by
  unfold shown at hrow
  split at hrow
  · rcases List.mem_cons.mp hrow with hrow | hrow
    · exact absurd (hrow ▸ hcaret) (not_isCaretRow_numbered _ _)
    · split at hrow
      · rename_i hline
        exact ⟨hline, List.mem_singleton.mp hrow⟩
      · exact absurd hrow List.not_mem_nil
  · exact absurd hrow List.not_mem_nil

/-- Rows with other numbers have no caret row below them. -/
theorem not_isCaretRow_of_ne {radius : ℤ} {rs : List (List Char × ℕ)}
    (h : ∀ r ∈ rs, (r.2 : ℤ) ≠ line) :
    ∀ row ∈ rs.flatMap (shown line column radius), ¬ IsCaretRow row := by
  intro row hrow hcaret
  obtain ⟨r, hr, hrow⟩ := List.mem_flatMap.mp hrow
  exact h r hr (shown_isCaretRow hrow hcaret).1

/-- **The row of the line stands in the excerpt with the caret row below it**, and there is no
other caret row. -/
theorem excerptRows_eq (column : ℤ) {radius : ℤ} (hradius : 0 ≤ radius) {number : ℕ}
    (hnumber : number ≠ 0) (hrow : (rows cs)[number - 1]? = some row) :
    ∃ above below, excerptRows cs number column radius =
        above ++ numbered number row :: caretRow column :: below ∧
      ∀ r ∈ above ++ below, ¬ IsCaretRow r := by
  obtain ⟨front, back, hrows, rfl⟩ :
      ∃ front back, rows cs = front ++ row :: back ∧ number = front.length + 1 := by
    obtain ⟨hlt, rfl⟩ := List.getElem?_eq_some_iff.mp hrow
    refine ⟨(rows cs).take (number - 1), (rows cs).drop (number - 1 + 1), ?_, ?_⟩
    · rw [List.getElem_cons_drop, List.take_append_drop]
    · rw [List.length_take_of_le hlt.le]
      omega
  have hline : shown (front.length + 1 : ℕ) column radius (row, front.length + 1) =
      [numbered (front.length + 1) row, caretRow column] := by
    rw [shown, if_pos ⟨by omega, by omega⟩, if_pos rfl]
  refine ⟨(front.zipIdx 1).flatMap (shown (front.length + 1 : ℕ) column radius),
    (back.zipIdx (front.length + 2)).flatMap (shown (front.length + 1 : ℕ) column radius), ?_, ?_⟩
  · rw [excerptRows, hrows, List.zipIdx_append, List.zipIdx_cons, List.flatMap_append,
      List.flatMap_cons, Nat.add_comm 1, hline]
    rfl
  · rw [List.forall_mem_append]
    constructor
    · refine not_isCaretRow_of_ne fun r hr => ?_
      have := List.snd_lt_of_mem_zipIdx hr
      omega
    · refine not_isCaretRow_of_ne fun r hr => ?_
      have := List.le_snd_of_mem_zipIdx hr
      omega

/-- A row that occurs only once has only one row above it. -/
theorem above_unique {α : Type} {a a' c : α} {above above' below below' : List α}
    (hnot : c ∉ above ++ a :: below) (h : above ++ a :: c :: below = above' ++ a' :: c :: below') :
    a = a' := by
  have hcut : (above ++ [a]) ++ c :: below = (above' ++ [a']) ++ c :: below' := by
    rw [List.append_assoc, List.append_assoc]
    exact h
  have habove : c ∉ above ++ [a] := by
    intro hmem
    rw [List.append_cons] at hnot
    exact hnot (List.mem_append_left _ hmem)
  have hbelow : c ∉ below := by
    intro hmem
    exact hnot (List.mem_append_right _ (List.mem_cons_of_mem _ hmem))
  obtain ⟨hrows, -, -⟩ := (List.append_cons_inj_of_notMem habove hbelow).mp hcut
  exact List.singleton_inj.mp (List.append_inj' hrows rfl).2

/-- The only caret row of an excerpt is that of the line, which the text has then. -/
theorem eq_of_excerptRows {radius : ℤ} (hradius : 0 ≤ radius) {number : ℕ} (hnumber : number ≠ 0)
    {above below : List (List Char)}
    (h : excerptRows cs number column radius = above ++ row :: caret :: below)
    (hcaret : IsCaretRow caret) (hother : ∀ r ∈ above ++ row :: below, ¬ IsCaretRow r) :
    ∃ line, (rows cs)[number - 1]? = some line ∧ row = numbered number line ∧
      caret = caretRow column := by
  have hmem : caret ∈ excerptRows cs number column radius := by
    rw [h]
    exact List.mem_append_right _ (List.mem_cons_of_mem _ List.mem_cons_self)
  obtain ⟨⟨line, k⟩, hr, hmem⟩ := List.mem_flatMap.mp hmem
  obtain ⟨hk, rfl⟩ := shown_isCaretRow hmem hcaret
  obtain rfl := Int.ofNat_inj.mp hk
  have hrow : (rows cs)[k - 1]? = some line := (List.mem_zipIdx_iff_le_and_getElem?_sub.mp hr).2
  obtain ⟨above', below', heq, -⟩ := excerptRows_eq column hradius hnumber hrow
  have hnot : caretRow column ∉ above ++ row :: below :=
    fun hmem => hother _ hmem (isCaretRow_caretRow _)
  exact ⟨line, hrow, above_unique hnot (h.symm.trans heq), rfl⟩

/-! ## 3. What the context points at -/

/-- A row with a number and a caret row below it mark an offset. -/
structure Marks (row caret : List Char) (number : ℕ) (column : ℤ) (p : ℕ) (cs : List Char) :
    Prop where
  /-- The row shows the line of the offset. -/
  row_eq : row = numbered number (lineAt p cs)
  /-- The row below it is a caret row. -/
  isCaretRow : IsCaretRow caret
  /-- The caret is below the column, which counts behind the number of the row. -/
  column : (caret.length : ℤ) = (numbered number []).length + column
  /-- What the row shows from there on is what the line holds from the offset on. -/
  ahead : row.drop (caret.length - 1) = lineAfter p cs

/-- The context of an error has exactly one caret row, which marks an offset together with the row
above it; the row has the number of the reported line, and the caret is below the reported
column. -/
def PointsAt (e : ParseError) (p : ℕ) (cs : List Char) : Prop :=
  ∃ (text : String) (number : ℕ) (above below : List (List Char)) (row caret : List Char),
    e.context = some text ∧ e.line = number ∧
      text.toList.splitOn '\n' = above ++ row :: caret :: below ∧
      (∀ r ∈ above ++ row :: below, ¬ IsCaretRow r) ∧ Marks row caret number e.column p cs

theorem length_caretRow (hp : p ≤ cs.length) :
    ((caretRow (columnNumber p cs)).length : ℤ) = 7 + columnNumber p cs := by
  rw [columnNumber_natCast hp, caretRow]
  simp only [List.length_append, List.length_replicate, List.length_cons, List.length_nil]
  omega

theorem length_numbered (number : ℕ) (row : List Char) :
    (numbered number row).length = (padNumber number).toList.length + 3 + row.length := by
  have hbar : " | ".toList.length = 3 := rfl
  rw [numbered, List.length_append, List.length_append, hbar]

theorem numbered_eq_append (number : ℕ) (row : List Char) :
    numbered number row = numbered number [] ++ row := by
  rw [numbered, numbered, List.append_nil]

/-- The caret row of the offset's column marks it if the row above is the line, with a number of at
most four digits. -/
theorem marks_iff (hp : p ≤ cs.length) (number : ℕ) :
    Marks (numbered number row) (caretRow (columnNumber p cs)) number (columnNumber p cs) p cs ↔
      row = lineAt p cs ∧ number < 10000 := by
  rw [← length_padNumber_eq_iff]
  have hcaret := length_caretRow hp
  have hnumber := length_numbered number []
  rw [List.length_nil] at hnumber
  constructor
  · intro h
    have hrow := h.row_eq
    rw [numbered_eq_append, numbered_eq_append _ (lineAt p cs)] at hrow
    have hcolumn := h.column
    exact ⟨List.append_cancel_left hrow, by omega⟩
  · rintro ⟨rfl, hdigits⟩
    have hlead : (caretRow (columnNumber p cs)).length - 1 =
        (numbered number (lineBefore p cs)).length := by
      rw [columnNumber_natCast hp] at hcaret ⊢
      rw [length_numbered]
      omega
    have hrow : numbered number (lineAt p cs) =
        numbered number (lineBefore p cs) ++ lineAfter p cs := by
      rw [lineAt, numbered_eq_append, numbered_eq_append _ (lineBefore p cs), List.append_assoc]
    refine ⟨rfl, isCaretRow_caretRow _, by omega, ?_⟩
    rw [hlead, hrow, List.drop_left]

/-- What an error reports for an offset within the text. -/
theorem parseError_of_le (filename message : String) {source : String}
    (hp : p ≤ source.toList.length) :
    let e := parseError filename source message p
    e.location = p ∧ e.line = lineNumber p source.toList ∧
      e.column = columnNumber p source.toList ∧ e.got = some (tokenAt source.toList p) := by
  have hlocation : min (p : ℤ) source.toList.length = p := by omega
  simp [parseError, hlocation]

/-- The context of an error in a text that is not blank. -/
theorem context_parseError (filename message : String) {source : String}
    (hblank : allBlank source.toList = false) (hp : p ≤ source.toList.length) :
    (parseError filename source message p).context = some (excerpt source.toList
      (lineNumber p source.toList) (columnNumber p source.toList) contextRadius) := by
  have hlocation : min (p : ℤ) source.toList.length = p := by omega
  simp [parseError, hlocation, hblank]

/-- **Where the context points at the offset**: the text has a row with the number of the offset's
line, that row is the line, and the number has at most four digits. -/
theorem pointsAt_iff {filename source message : String}
    (hblank : allBlank source.toList = false) (hp : p ≤ source.toList.length) :
    PointsAt (parseError filename source message p) p source.toList ↔
      (rows source.toList)[lineNumber p source.toList - 1]? = some (lineAt p source.toList) ∧
        lineNumber p source.toList < 10000 := by
  obtain ⟨-, hline, hcolumn, -⟩ := parseError_of_le filename message hp
  rw [PointsAt, hline, hcolumn, context_parseError filename message hblank hp]
  generalize source.toList = cs at *
  have hcs : rows cs ≠ [] := by
    intro hrows
    obtain ⟨rfl, -⟩ := rowsFrom_eq_nil_iff.mp hrows
    exact absurd hblank (by decide)
  have hnumber : lineNumber p cs ≠ 0 := by
    rw [lineNumber_natCast]
    exact Nat.succ_ne_zero _
  have hradius : 0 ≤ contextRadius := by decide
  constructor
  -- The rows of the context are those of the excerpt, and the row with a caret is the only one of
  -- its kind there, so the row above it is the numbered one.
  · rintro ⟨text, number, above, below, row, caret, htext, hnumbered, hsplit, hother, hmarks⟩
    obtain rfl := Option.some.inj htext
    obtain rfl := Int.ofNat_inj.mp hnumbered
    have hne : excerptRows cs (lineNumber p cs) (columnNumber p cs) contextRadius ≠ [] := by
      intro hempty
      rw [toList_excerpt hcs, hempty] at hsplit
      have hlength := congrArg List.length hsplit
      simp only [List.intercalate_nil, List.splitOn_nil, List.length_append, List.length_cons,
        List.length_nil] at hlength
      omega
    rw [splitOn_excerpt hcs hne] at hsplit
    obtain ⟨line, hrow, hnumbered, hcaret⟩ :=
      eq_of_excerptRows hradius hnumber hsplit hmarks.isCaretRow hother
    rw [hnumbered, hcaret] at hmarks
    obtain ⟨hline, hdigits⟩ := (marks_iff hp _).mp hmarks
    rw [hrow, hline]
    exact ⟨rfl, hdigits⟩
  · rintro ⟨hrow, hdigits⟩
    obtain ⟨above, below, heq, hother⟩ :=
      excerptRows_eq (columnNumber p cs) hradius hnumber hrow
    obtain ⟨habove, hbelow⟩ := List.forall_mem_append.mp hother
    refine ⟨_, _, above, below, _, _, rfl, rfl, ?_, ?_, (marks_iff hp _).mpr ⟨rfl, hdigits⟩⟩
    · rw [splitOn_excerpt hcs (by simp [heq]), heq]
    · exact List.forall_mem_append.mpr
        ⟨habove, List.forall_mem_cons.mpr ⟨not_isCaretRow_numbered _ _, hbelow⟩⟩

/-- **The context of a parse error points at the failure**, if the row with the number of the line
is the line.  If line feeds alone end rows up to the end of the line, that fails only at the end of
a text that ends with a line feed, and in line 10000 and beyond. -/
theorem context_pointsAt {filename source message : String}
    (hblank : allBlank source.toList = false) (hp : p ≤ source.toList.length) :
    (PointsAt (parseError filename source message p) p source.toList ↔
      (rows source.toList)[lineNumber p source.toList - 1]? = some (lineAt p source.toList) ∧
        lineNumber p source.toList < 10000) ∧
    ((∀ c ∈ source.toList.take p ++ lineAfter p source.toList, isRowEnd c → c = '\n') →
      (PointsAt (parseError filename source message p) p source.toList ↔
        ¬ (p = source.toList.length ∧ source.toList.getLast? = some '\n') ∧
          lineNumber p source.toList < 10000)) := by
  refine ⟨pointsAt_iff hblank hp, fun hends => ?_⟩
  have hlast : p = source.toList.length ∧ lineBefore p source.toList = [] ↔
      p = source.toList.length ∧ source.toList.getLast? = some '\n' := by
    refine and_congr_right fun hlength => ?_
    rw [lineBefore_eq_nil_iff hp, hlength, List.take_length]
    refine or_iff_right fun hzero => ?_
    rw [List.length_eq_zero_iff.mp hzero] at hblank
    exact absurd hblank (by decide)
  rw [pointsAt_iff hblank hp, rows_getElem?_line hp hends]
  simp [hlast]

theorem context_pointsAt_second :
    allBlank "let x = 5\nin x".toList = false ∧ 13 ≤ "let x = 5\nin x".toList.length ∧
    (∀ c ∈ "let x = 5\nin x".toList.take 13 ++ lineAfter 13 "let x = 5\nin x".toList,
      isRowEnd c → c = '\n') ∧
    PointsAt (parseError "<input>" "let x = 5\nin x" "" 13) 13 "let x = 5\nin x".toList := by
  have hblank : allBlank "let x = 5\nin x".toList = false := by decide
  have hp : 13 ≤ "let x = 5\nin x".toList.length := by decide
  have hends : ∀ c ∈ "let x = 5\nin x".toList.take 13 ++ lineAfter 13 "let x = 5\nin x".toList,
      isRowEnd c → c = '\n' := by
    intro c hc hend
    have hall : ("let x = 5\nin x".toList.take 13 ++ lineAfter 13 "let x = 5\nin x".toList).all
        fun c => !isRowEnd c || c == '\n' := by decide
    simpa [hend] using List.all_eq_true.mp hall c hc
  exact ⟨hblank, hp, hends, ((context_pointsAt hblank hp).2 hends).mpr (by decide)⟩

/-- Some contexts point at nothing: behind a line feed at the end of a text there is no row. -/
theorem not_context_pointsAt : ¬ ∀ (filename source message : String) (p : ℕ),
    allBlank source.toList = false → p ≤ source.toList.length →
      PointsAt (parseError filename source message p) p source.toList := by
  intro h
  have hpoints := h "<input>" "(\n" "" 2 (by decide) (by decide)
  exact absurd ((pointsAt_iff (by decide) (by decide)).mp hpoints).1 (by decide)

end Rpal.Diagnosis
