/-
# Escaping a text

`interpretEscapes` reads a text two characters at a time where a backslash stands.  Two facts about
such a scan are used elsewhere.

* It undoes `escape`, which writes any text without quotes, tabs and line feeds
  (`interpretEscapes_escape`).
* A text can be cut in two and each part be read for itself, unless the cut goes through an escape
  sequence (`interpretEscapes_append`).  It does only if the first part ends in a backslash that is
  not taken by one in front of it, so in an odd number of them:

      \\\|n    cut        \\|n    not cut
-/
import Mathlib.Algebra.Group.Nat.Even
import Mathlib.Data.List.DropRight
import Rpal.Text.Escape

namespace Rpal.Text

variable {c d : Char} {cs ds : List Char}

/-! ## 1. Escape sequences -/

theorem escaped?_eq_none_iff : escaped? c = none ↔ c ∉ ['n', 't', '\\', '\''] := by
  simp only [escaped?, List.mem_cons, List.not_mem_nil, or_false, not_or]
  grind

theorem interpretEscapes_cons (hc : c ≠ '\\') (cs : List Char) :
    interpretEscapes (c :: cs) = c :: interpretEscapes cs :=
  interpretEscapes.eq_3 c cs fun _ _ h => absurd h hc

/-- A backslash stands for itself if nothing is behind it that it could escape. -/
theorem interpretEscapes_backslash (h : ∀ d ∈ ds.head?, escaped? d = none) :
    interpretEscapes ('\\' :: ds) = '\\' :: interpretEscapes ds := by
  cases ds with
  | nil => rfl
  | cons d ds => simp only [interpretEscapes, h d rfl]

/-- A character as it is written in a string literal. -/
def escapeChar (c : Char) : List Char :=
  if c = '\\' then ['\\', '\\']
  else if c = '\'' then ['\\', '\'']
  else if c = '\n' then ['\\', 'n']
  else if c = '\t' then ['\\', 't']
  else [c]

/-- A text as it is written in a string literal. -/
def escape (cs : List Char) : List Char := cs.flatMap escapeChar

/-- A character is written as an escape sequence or as itself. -/
theorem escapeChar_cases (c : Char) :
    (∃ d, escapeChar c = ['\\', d] ∧ escaped? d = some c ∧ d ≠ '\n' ∧ d ≠ '\t') ∨
      escapeChar c = [c] ∧ c ≠ '\\' ∧ c ≠ '\'' ∧ c ≠ '\n' ∧ c ≠ '\t' := by
  unfold escapeChar
  split
  · rename_i hc
    subst hc
    exact .inl ⟨'\\', rfl, by decide, by decide, by decide⟩
  · split
    · rename_i hc
      subst hc
      exact .inl ⟨'\'', rfl, by decide, by decide, by decide⟩
    · split
      · rename_i hc
        subst hc
        exact .inl ⟨'n', rfl, by decide, by decide, by decide⟩
      · split
        · rename_i hc
          subst hc
          exact .inl ⟨'t', rfl, by decide, by decide, by decide⟩
        · exact .inr ⟨rfl, ‹_›, ‹_›, ‹_›, ‹_›⟩

/-- **Every text is read back** from the way it is written. -/
theorem interpretEscapes_escape (cs : List Char) : interpretEscapes (escape cs) = cs := by
  induction cs with
  | nil => rfl
  | cons c cs ih =>
    rw [escape, List.flatMap_cons, ← escape]
    rcases escapeChar_cases c with ⟨d, hwritten, hd, -⟩ | ⟨hwritten, hc, -⟩
    · rw [hwritten, List.cons_append, List.singleton_append]
      simp only [interpretEscapes, hd, ih]
    · rw [hwritten, List.singleton_append, interpretEscapes_cons hc, ih]

/-! ## 2. Cutting a text -/

/-- The number of backslashes that a text ends in. -/
def trailingBackslashes (cs : List Char) : Nat := (cs.rtakeWhile (· == '\\')).length

/-- Backslashes alone carry on those in front of them, and a text with other characters hides what is
in front of it. -/
theorem trailingBackslashes_append (cs ds : List Char) :
    trailingBackslashes (cs ++ ds) = trailingBackslashes ds +
      if ds.all (· == '\\') then trailingBackslashes cs else 0 := by
  have hwhole : ds.reverse.takeWhile (· == '\\') = ds.reverse ↔ ds.all (· == '\\') := by
    simp only [List.takeWhile_eq_self_iff, List.mem_reverse, List.all_eq_true]
  simp only [trailingBackslashes, List.rtakeWhile, List.length_reverse, List.reverse_append]
  rw [List.takeWhile_append]
  by_cases h : ds.all (· == '\\')
  · have hds := hwhole.mpr h
    rw [if_pos h, hds, if_pos rfl, List.length_append]
  · have hds : (ds.reverse.takeWhile (· == '\\')).length ≠ ds.reverse.length :=
      fun hlength => h (hwhole.mp ((List.takeWhile_prefix _).eq_of_length hlength))
    rw [if_neg h, if_neg hds, Nat.add_zero]

theorem trailingBackslashes_cons (hc : c ≠ '\\') (cs : List Char) :
    trailingBackslashes (c :: cs) = trailingBackslashes cs := by
  have hone : trailingBackslashes [c] = 0 := by
    simp [trailingBackslashes, List.rtakeWhile, hc]
  rw [← List.singleton_append, trailingBackslashes_append, hone, ite_self, Nat.add_zero]

/-- A pair in front makes no difference. -/
theorem even_trailingBackslashes_pair (c : Char) (cs : List Char) :
    Even (trailingBackslashes ('\\' :: c :: cs)) ↔ Even (trailingBackslashes cs) := by
  have htwo : Even (trailingBackslashes ['\\', c]) := by
    by_cases hc : c = '\\'
    · subst hc
      decide
    · simp [trailingBackslashes, List.rtakeWhile, hc]
  have hsplit : '\\' :: c :: cs = ['\\', c] ++ cs := rfl
  rw [hsplit, trailingBackslashes_append, Nat.even_add]
  split
  · exact iff_true_right htwo
  · exact iff_true_right Even.zero

/-- The last backslash of the first text, if it is not taken by one in front of it, and the first
character of the second text are no escape sequence. -/
def Separate (cs ds : List Char) : Prop :=
  Even (trailingBackslashes cs) ∨ ∀ d ∈ ds.head?, d ∉ ['n', 't', '\\', '\'']

/-- **A text is read in parts**, unless it is cut within an escape sequence. -/
theorem interpretEscapes_append (h : Separate cs ds) :
    interpretEscapes (cs ++ ds) = interpretEscapes cs ++ interpretEscapes ds := by
  fun_induction interpretEscapes cs with
  | case1 => rfl
  | case2 c rest e he ih =>
    rw [Separate, even_trailingBackslashes_pair] at h
    simp only [List.cons_append, interpretEscapes, he, ih h]
  | case3 c rest he ih =>
    -- the backslash escapes nothing, so the next character is no backslash
    have hc : c ≠ '\\' := by
      rintro rfl
      cases he
    rw [Separate, even_trailingBackslashes_pair, ← trailingBackslashes_cons hc] at h
    simp only [List.cons_append, interpretEscapes, he] at ih ⊢
    rw [ih h]
  | case4 c rest hpair ih =>
    by_cases hc : c = '\\'
    · subst hc
      obtain rfl : rest = [] := by
        cases rest with
        | nil => rfl
        | cons d rest => exact (hpair d rest rfl rfl).elim
      -- a single backslash is an odd number of them
      have hds : ∀ d ∈ ds.head?, escaped? d = none := by
        rcases h with h | h
        · exact absurd h (by decide)
        · exact fun d hd => escaped?_eq_none_iff.mpr (h d hd)
      exact interpretEscapes_backslash hds
    · rw [Separate, trailingBackslashes_cons hc] at h
      rw [List.cons_append, interpretEscapes_cons hc, ih h, List.cons_append]

end Rpal.Text
