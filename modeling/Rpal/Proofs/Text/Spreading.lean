/-
# Texts with their tabs spread out

A tab may be spread into any number of blanks, which may depend on the column where it stands
(`spread`).  Expanding the tabs does so up to the next tab stop (`expandTabsFrom_eq_spread`), and
with one blank for every tab nothing moves (`blankTabs_eq_spread`).

As long as every tab leaves a blank, a text and what it is spread into are cut at the same places by
everything that does not tell a tab from a blank.
-/
import Mathlib.Data.List.TakeWhile
import Rpal.Proofs.Text.Tabs

namespace Rpal.Text

variable {gap : ℕ → ℕ} {column : ℕ} {c : Char} {cs front rest : List Char}

/-! ## 1. Spreading -/

/-- The column behind a character; a tab takes as many columns as the gap at its own. -/
def nextColumn (gap : ℕ → ℕ) (column : ℕ) (c : Char) : ℕ :=
  if c = '\t' then column + gap column else if c = '\n' || c = '\r' then 0 else column + 1

/-- A text, from a column on, with blanks for its tabs. -/
def spread (gap : ℕ → ℕ) (column : ℕ) : List Char → List Char
  | [] => []
  | c :: rest =>
    (if c = '\t' then List.replicate (gap column) ' ' else [c]) ++
      spread gap (nextColumn gap column c) rest

/-- The column behind a text. -/
def columnAfter (gap : ℕ → ℕ) (column : ℕ) (front : List Char) : ℕ :=
  front.foldl (nextColumn gap) column

/-- A text behind another one begins at the column where that one ends. -/
theorem spread_append (gap : ℕ → ℕ) (column : ℕ) (front rest : List Char) :
    spread gap column (front ++ rest) =
      spread gap column front ++ spread gap (columnAfter gap column front) rest := by
  induction front generalizing column with
  | nil => rfl
  | cons c front ih => rw [List.cons_append, spread, spread, ih, List.append_assoc]; rfl

theorem length_spread_append (gap : ℕ → ℕ) (column : ℕ) (front rest : List Char) :
    (spread gap column (front ++ rest)).length = (spread gap column front).length +
      (spread gap (columnAfter gap column front) rest).length := by
  rw [spread_append, List.length_append]

theorem columnAfter_append (gap : ℕ → ℕ) (column : ℕ) (front rest : List Char) :
    columnAfter gap column (front ++ rest) =
      columnAfter gap (columnAfter gap column front) rest :=
  List.foldl_append

theorem spread_cons (hc : c ≠ '\t') :
    spread gap column (c :: rest) = c :: spread gap (nextColumn gap column c) rest := by
  rw [spread, if_neg hc]
  rfl

/-- A tab leaves the blanks that its column asks for. -/
theorem spread_tab :
    spread gap column ('\t' :: rest) =
      List.replicate (gap column) ' ' ++ spread gap (column + gap column) rest :=
  rfl

/-- A text without tabs stays as it is. -/
theorem spread_eq_self (h : '\t' ∉ cs) : spread gap column cs = cs := by
  induction cs generalizing column with
  | nil => rfl
  | cons c cs ih =>
    rw [List.mem_cons, not_or] at h
    rw [spread_cons (Ne.symm h.1), ih h.2]

/-! ## 2. Two ways to do it -/

/-- Expanding tabs spreads them up to the next tab stop. -/
theorem expandTabsFrom_eq_spread (column : ℕ) (cs : List Char) :
    expandTabsFrom column cs = spread (fun column => tabWidth - column % tabWidth) column cs := by
  fun_induction expandTabsFrom column cs with
  | case1 => rfl
  | case2 column rest width ih => rw [ih, spread_tab]
  | case3 column c rest hc ih => rw [ih, spread_cons hc, nextColumn, if_neg hc]

/-- A text with a single blank for every tab. -/
def blankTabs (cs : List Char) : List Char :=
  cs.map fun c => if c = '\t' then ' ' else c

/-- With one blank for every tab the columns do not matter. -/
theorem blankTabs_eq_spread (column : ℕ) (cs : List Char) :
    blankTabs cs = spread (fun _ => 1) column cs := by
  induction cs generalizing column with
  | nil => rfl
  | cons c cs ih =>
    rw [spread, ← ih, blankTabs, List.map_cons]
    split <;> rfl

/-! ## 3. What does not tell a tab from a blank -/

section Gap

variable (hgap : ∀ column, gap column ≠ 0)

include hgap

/-- The first character is the same, or a tab that became a blank. -/
theorem head?_spread :
    (spread gap column cs).head? = cs.head?.map fun c => if c = '\t' then ' ' else c := by
  cases cs with
  | nil => rfl
  | cons c rest =>
    by_cases hc : c = '\t'
    · obtain ⟨n, hn⟩ := Nat.exists_eq_succ_of_ne_zero (hgap column)
      rw [hc, spread_tab, hn, List.replicate_succ]
      rfl
    · rw [spread_cons hc, List.head?_cons, List.head?_cons, Option.map_some, if_neg hc]

/-- A property of the first character that a tab shares with a blank. -/
theorem head?_spread_any {p : Char → Bool} (hp : p ' ' = p '\t') :
    (spread gap column cs).head?.any p = cs.head?.any p := by
  rw [head?_spread hgap]
  cases cs with
  | nil => rfl
  | cons c rest =>
    by_cases hc : c = '\t'
    · simp [hc, hp]
    · simp [hc]

/-- Nothing is left exactly where nothing was. -/
theorem isEmpty_spread : (spread gap column cs).isEmpty = cs.isEmpty := by
  cases cs with
  | nil => rfl
  | cons c rest =>
    have hhead : (spread gap column (c :: rest)).head? = _ := head?_spread hgap
    obtain ⟨after, hafter⟩ := List.head?_eq_some_iff.mp hhead
    rw [hafter]
    rfl

/-- A character that is no blank stands first only where it stood first before. -/
theorem spread_ne_cons (hc : c ≠ ' ') (h : ∀ rest, cs ≠ c :: rest) (rest : List Char) :
    spread gap column cs ≠ c :: rest := by
  intro heq
  have hhead : (spread gap column cs).head? = _ := head?_spread hgap
  rw [heq] at hhead
  cases cs with
  | nil => cases hhead
  | cons d cs =>
    have hd : c = if d = '\t' then ' ' else d := Option.some.inj hhead
    split at hd
    · exact hc hd
    · exact h cs (by rw [hd])

/-- Spreading makes a text longer, if anything. -/
theorem length_le_length_spread (column : ℕ) (cs : List Char) :
    cs.length ≤ (spread gap column cs).length := by
  induction cs generalizing column with
  | nil => exact Nat.zero_le _
  | cons c cs ih =>
    have hrest := ih (nextColumn gap column c)
    have hfirst := Nat.pos_of_ne_zero (hgap column)
    rw [spread, List.length_append, List.length_cons]
    split
    · rw [List.length_replicate]
      omega
    · rw [List.length_singleton]
      omega

end Gap

/-- What is taken while a property holds that neither a tab nor a blank has. -/
theorem takeWhile_spread (hgap : ∀ column, gap column ≠ 0) {p : Char → Bool} (htab : p '\t' = false)
    (hblank : p ' ' = false) (column : ℕ) (cs : List Char) :
    (spread gap column cs).takeWhile p = cs.takeWhile p ∧
      (spread gap column cs).dropWhile p =
        spread gap (columnAfter gap column (cs.takeWhile p)) (cs.dropWhile p) := by
  induction cs generalizing column with
  | nil => exact ⟨rfl, rfl⟩
  | cons c cs ih =>
    by_cases hc : c = '\t'
    · obtain ⟨n, hn⟩ := Nat.exists_eq_succ_of_ne_zero (hgap column)
      subst hc
      rw [List.takeWhile_cons_of_neg (by simp [htab]), List.dropWhile_cons_of_neg (by simp [htab]),
        spread_tab, hn, List.replicate_succ, List.cons_append,
        List.takeWhile_cons_of_neg (by simp [hblank]),
        List.dropWhile_cons_of_neg (by simp [hblank])]
      exact ⟨rfl, by rw [columnAfter, List.foldl_nil, spread_tab, hn]; rfl⟩
    · rw [spread_cons hc]
      obtain ⟨htake, hdrop⟩ := ih (nextColumn gap column c)
      cases hpc : p c with
      | false =>
        rw [List.takeWhile_cons_of_neg (by simp [hpc]), List.dropWhile_cons_of_neg (by simp [hpc]),
          List.takeWhile_cons_of_neg (by simp [hpc]), List.dropWhile_cons_of_neg (by simp [hpc])]
        exact ⟨rfl, (spread_cons hc).symm⟩
      | true =>
        rw [List.takeWhile_cons_of_pos hpc, List.dropWhile_cons_of_pos hpc,
          List.takeWhile_cons_of_pos hpc, List.dropWhile_cons_of_pos hpc, htake, hdrop]
        exact ⟨rfl, rfl⟩

end Rpal.Text
