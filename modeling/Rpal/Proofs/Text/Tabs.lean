/-
# Texts with their tabs expanded

A tab leaves nothing but blanks.  So whatever stands in an expanded text and is no blank stood
there before, and what is behind it there is what was behind it, with its tabs expanded from some
column on.
-/
import Rpal.Text.Tabs

namespace Rpal.Text

variable {column : Nat} {c : Char} {cs before word after : List Char}

/-- A tab leaves at least one blank. -/
theorem gap_ne_zero (column : Nat) : tabWidth - column % tabWidth ≠ 0 :=
  Nat.sub_ne_zero_of_lt (Nat.mod_lt _ (by decide))

theorem expandTabsFrom_eq_cons (hc : c ≠ ' ') (h : expandTabsFrom column cs = c :: after) :
    ∃ rest column', cs = c :: rest ∧ expandTabsFrom column' rest = after := by
  unfold expandTabsFrom at h
  split at h
  · cases h
  · rename_i rest
    obtain ⟨n, hn⟩ := Nat.exists_eq_succ_of_ne_zero (gap_ne_zero column)
    change List.replicate (tabWidth - column % tabWidth) ' ' ++ _ = c :: after at h
    rw [hn, List.replicate_succ, List.cons_append] at h
    exact absurd (List.cons.inj h).1.symm hc
  · obtain ⟨rfl, rfl⟩ := List.cons.inj h
    exact ⟨_, _, rfl, rfl⟩

/-- A piece without blanks at the start of an expanded text was there before. -/
theorem expandTabsFrom_eq_append (hword : ' ' ∉ word)
    (h : expandTabsFrom column cs = word ++ after) :
    ∃ rest column', cs = word ++ rest ∧ expandTabsFrom column' rest = after := by
  induction word generalizing column cs with
  | nil => exact ⟨cs, column, rfl, h⟩
  | cons c word ih =>
    rw [List.mem_cons, not_or] at hword
    obtain ⟨rest, column', rfl, hrest⟩ := expandTabsFrom_eq_cons (Ne.symm hword.1) h
    obtain ⟨rest, column', rfl, hafter⟩ := ih hword.2 hrest
    exact ⟨rest, column', rfl, hafter⟩

/-- A character other than a blank was there before. -/
theorem expandTabsFrom_split (hc : c ≠ ' ')
    (h : expandTabsFrom column cs = before ++ c :: after) :
    ∃ front rest column', cs = front ++ c :: rest ∧ expandTabsFrom column' rest = after := by
  fun_induction expandTabsFrom column cs generalizing before with
  | case1 => simp at h
  | case2 column rest gap =>
    rename_i ih
    -- the character stands behind the blanks, which are none of the text's
    have hbehind : ∃ before', expandTabsFrom (column + gap) rest = before' ++ c :: after := by
      rcases List.append_eq_append_iff.mp h with ⟨more, -, hrest⟩ | ⟨blanks, hblanks, hrest⟩
      · exact ⟨more, hrest⟩
      · cases blanks with
        | nil => exact ⟨[], hrest.symm⟩
        | cons d blanks =>
          obtain ⟨rfl, -⟩ := List.cons.inj hrest
          have hmem : c ∈ List.replicate gap ' ' := by
            rw [hblanks]
            exact List.mem_append_right _ List.mem_cons_self
          exact absurd (List.eq_of_mem_replicate hmem) hc
    obtain ⟨before', hrest⟩ := hbehind
    obtain ⟨front, rest, column', rfl, hafter⟩ := ih hrest
    exact ⟨'\t' :: front, rest, column', rfl, hafter⟩
  | case3 column d rest hd ih =>
    cases before with
    | nil =>
      obtain ⟨rfl, rfl⟩ := List.cons.inj h
      exact ⟨[], rest, _, rfl, rfl⟩
    | cons e before =>
      obtain ⟨front, rest, column', rfl, hafter⟩ := ih (List.cons.inj h).2
      exact ⟨d :: front, rest, column', rfl, hafter⟩

/-- A character that is no blank stands first only where it stood first before. -/
theorem head?_expandTabsFrom_ne (hc : c ≠ ' ') (h : ∀ rest, cs ≠ c :: rest) :
    (expandTabsFrom column cs).head? ≠ some c := by
  intro hhead
  obtain ⟨after, hafter⟩ := List.head?_eq_some_iff.mp hhead
  obtain ⟨rest, -, hrest, -⟩ := expandTabsFrom_eq_cons hc hafter
  exact h rest hrest

end Rpal.Text
