/-
# The string literals of a text

`literals` takes the insides of the string literals out of a text in one pass, which knows nothing
of tokens: it only tells comments and literals from the code around them.  So

    f 'a' // it's
    'b\'c'

has the literals `a` and `b\'c`.

A text that is scanned to its end has exactly these as its string tokens (`strings_of_scan`).  Of
a text whose tabs are expanded they are the literals of the text before, each with its own tabs
expanded from the column where it stood (`literals_expandTabs`).
-/
import Mathlib.Data.List.Forall2
import Rpal.Proofs.Text.Tabs
import Rpal.Proofs.Token.Scanning

namespace Rpal

namespace Text

/-! ## 1. Literals -/

/-- What the characters of a source text belong to. -/
inductive Place where
  | code
  | comment
  | literal

/-- The insides of the string literals of a text that begins at a place.  In a comment a backslash
takes a line feed with it, and in a literal any character. -/
def literalsFrom : Place → List Char → List (List Char)
  | _, [] => []
  | .code, '/' :: '/' :: rest => literalsFrom .comment rest
  | .code, '\'' :: rest => literalsFrom .literal rest
  | .code, _ :: rest => literalsFrom .code rest
  | .comment, '\\' :: '\n' :: rest => literalsFrom .comment rest
  | .comment, '\n' :: rest => literalsFrom .code rest
  | .comment, _ :: rest => literalsFrom .comment rest
  | .literal, '\'' :: rest => [] :: literalsFrom .code rest
  | .literal, '\\' :: c :: rest =>
    ((literalsFrom .literal rest).modifyHead (c :: ·)).modifyHead ('\\' :: ·)
  | .literal, c :: rest => (literalsFrom .literal rest).modifyHead (c :: ·)

/-- The insides of the string literals of a text, in order. -/
def literals (cs : List Char) : List (List Char) := literalsFrom .code cs

variable {c : Char} {cs rest used : List Char}

theorem literalsFrom_code (hquote : c ≠ '\'') (hslash : c = '/' → rest.head? ≠ some '/') :
    literalsFrom .code (c :: rest) = literalsFrom .code rest := by
  refine literalsFrom.eq_4 c rest (fun behind hc hrest => ?_) fun hc => hquote hc
  exact hslash hc (by rw [hrest]; rfl)

theorem literalsFrom_comment (hfeed : c ≠ '\n') (hback : c = '\\' → rest.head? ≠ some '\n') :
    literalsFrom .comment (c :: rest) = literalsFrom .comment rest := by
  refine literalsFrom.eq_7 c rest (fun behind hc hrest => ?_) fun hc => hfeed hc
  exact hback hc (by rw [hrest]; rfl)

theorem literalsFrom_literal (hquote : c ≠ '\'') (hback : c ≠ '\\') :
    literalsFrom .literal (c :: rest) = (literalsFrom .literal rest).modifyHead (c :: ·) :=
  literalsFrom.eq_10 c rest (fun hc => hquote hc) fun _ _ hc _ => hback hc

/-- Code without quotes and slashes has no literals. -/
theorem literals_append_of_plain (hquote : '\'' ∉ used) (hslash : '/' ∉ used) :
    literals (used ++ cs) = literals cs := by
  induction used with
  | nil => rfl
  | cons c used ih =>
    rw [List.mem_cons, not_or] at hquote hslash
    calc literals (c :: used ++ cs) = literals (used ++ cs) :=
          literalsFrom_code (Ne.symm hquote.1) fun hc => absurd hc.symm hslash.1
      _ = literals cs := ih hquote.2 hslash.2

/-- The literal that begins behind a quote. -/
theorem literalsFrom_append {raw : List Char} (h : Token.Quotable raw) :
    literalsFrom .literal (raw ++ '\'' :: cs) = raw :: literals cs := by
  induction h with
  | nil => rfl
  | pair _ _ ih => rw [List.cons_append, List.cons_append, literalsFrom, ih]; rfl
  | plain hq hb _ ih => rw [List.cons_append, literalsFrom_literal hq hb, ih]; rfl

/-! ## 2. Tabs -/

section Tabs

variable {column : Nat} {xs ys : List (List Char)}

/-- The second text is the first with its tabs expanded, from some column on. -/
def Expanded (cs text : List Char) : Prop := ∃ column, expandTabsFrom column cs = text

/-- The second literals are the first with their tabs expanded; the first of them begins at the
column. -/
inductive ExpandedFrom (column : Nat) : List (List Char) → List (List Char) → Prop where
  | nil : ExpandedFrom column [] []
  | cons (raw : List Char) {xs ys : List (List Char)} (h : List.Forall₂ Expanded xs ys) :
      ExpandedFrom column (raw :: xs) (expandTabsFrom column raw :: ys)

theorem ExpandedFrom.plain (hc : c ≠ '\t')
    (h : ExpandedFrom (if c = '\n' || c = '\r' then 0 else column + 1) xs ys) :
    ExpandedFrom column (xs.modifyHead (c :: ·)) (ys.modifyHead (c :: ·)) := by
  cases h with
  | nil => exact .nil
  | cons raw h =>
    have hraw := expandTabsFrom.eq_3 column c raw hc
    simp only [List.modifyHead_cons, ← hraw]
    exact .cons (c :: raw) h

theorem ExpandedFrom.tab (h : ExpandedFrom (column + (tabWidth - column % tabWidth)) xs ys) :
    ExpandedFrom column (xs.modifyHead ('\t' :: ·))
      (ys.modifyHead (List.replicate (tabWidth - column % tabWidth) ' ' ++ ·)) := by
  cases h with
  | nil => exact .nil
  | cons raw h => exact .cons ('\t' :: raw) h

theorem ExpandedFrom.forall₂ (h : ExpandedFrom column xs ys) : List.Forall₂ Expanded xs ys := by
  cases h with
  | nil => exact .nil
  | cons raw h => exact .cons ⟨column, rfl⟩ h

theorem literalsFrom_comment_blanks (n : Nat) (cs : List Char) :
    literalsFrom .comment (List.replicate n ' ' ++ cs) = literalsFrom .comment cs := by
  induction n with
  | zero => rfl
  | succ n ih =>
    rw [List.replicate_succ, List.cons_append]
    exact (literalsFrom_comment (by decide) fun hc => absurd hc (by decide)).trans ih

theorem literalsFrom_literal_blanks (n : Nat) (cs : List Char) :
    literalsFrom .literal (List.replicate n ' ' ++ cs) =
      (literalsFrom .literal cs).modifyHead (List.replicate n ' ' ++ ·) := by
  induction n with
  | zero => exact (congrFun List.modifyHead_id _).symm
  | succ n ih =>
    rw [List.replicate_succ, List.cons_append, literalsFrom_literal (by decide) (by decide), ih,
      List.modifyHead_modifyHead]
    rfl

/-- The first blank is what the backslash takes with it. -/
theorem literalsFrom_backslash_blanks {n : Nat} (hn : n ≠ 0) (cs : List Char) :
    literalsFrom .literal ('\\' :: (List.replicate n ' ' ++ cs)) =
      ((literalsFrom .literal cs).modifyHead (List.replicate n ' ' ++ ·)).modifyHead
        ('\\' :: ·) := by
  obtain ⟨n, rfl⟩ := Nat.exists_eq_succ_of_ne_zero hn
  rw [List.replicate_succ, List.cons_append, literalsFrom, literalsFrom_literal_blanks]
  exact congrArg (List.modifyHead ('\\' :: ·)) List.modifyHead_modifyHead

theorem literals_blanks (n : Nat) (cs : List Char) :
    literals (List.replicate n ' ' ++ cs) = literals cs :=
  literals_append_of_plain (fun h => absurd (List.eq_of_mem_replicate h) (by decide))
    fun h => absurd (List.eq_of_mem_replicate h) (by decide)

/-- What is known of the literals of an expanded text that begins at a place. -/
def Place.Expands : Place → Nat → List (List Char) → List (List Char) → Prop
  | .literal => ExpandedFrom
  | .code | .comment => fun _ => List.Forall₂ Expanded

/-- Expanding the tabs moves no end of a literal or a comment: what stands in front of a character
is paired with it exactly if it was before. -/
theorem expands_literalsFrom (place : Place) (cs : List Char) (column : Nat) :
    place.Expands column (literalsFrom place cs)
      (literalsFrom place (expandTabsFrom column cs)) := by
  -- The cases are those of the scan of the text with its tabs.  In each of them a tab is a run of
  -- blanks, which keeps the place, and another character is the same in both texts.
  fun_induction literalsFrom place cs generalizing column with
  | case1 place => cases place <;> exact .nil
  | case2 rest ih => exact ih _
  | case3 rest ih => exact (ih _).forall₂
  | case4 c rest hcomment hquote ih =>
    by_cases htab : c = '\t'
    · subst htab
      rw [expandTabsFrom, ← literals, ← literals, literals_blanks]
      exact ih _
    · rw [expandTabsFrom.eq_3 _ _ _ htab, literalsFrom_code hquote fun hc =>
        head?_expandTabsFrom_ne (by decide) fun text => hcomment text hc]
      exact ih _
  | case5 rest ih => exact ih _
  | case6 rest ih => exact ih _
  | case7 c rest hcontinued hfeed ih =>
    by_cases htab : c = '\t'
    · subst htab
      rw [expandTabsFrom, literalsFrom_comment_blanks]
      exact ih _
    · rw [expandTabsFrom.eq_3 _ _ _ htab, literalsFrom_comment hfeed fun hc =>
        head?_expandTabsFrom_ne (by decide) fun text => hcontinued text hc]
      exact ih _
  | case8 rest ih => exact .cons [] (ih _)
  | case9 c rest ih =>
    rw [expandTabsFrom.eq_3 _ _ _ (by decide)]
    by_cases htab : c = '\t'
    · subst htab
      rw [expandTabsFrom, literalsFrom_backslash_blanks (gap_ne_zero _)]
      exact .plain (by decide) (.tab (ih _))
    · rw [expandTabsFrom.eq_3 _ _ _ htab, literalsFrom]
      exact .plain (by decide) (.plain htab (ih _))
  | case10 c rest hquote hpair ih =>
    by_cases htab : c = '\t'
    · subst htab
      rw [expandTabsFrom, literalsFrom_literal_blanks]
      exact .tab (ih _)
    · rw [expandTabsFrom.eq_3 _ _ _ htab]
      by_cases hback : c = '\\'
      · -- a backslash with nothing behind it
        subst hback
        cases rest with
        | nil => exact .nil
        | cons d rest => exact absurd rfl (hpair d rest rfl)
      · rw [literalsFrom_literal hquote hback]
        exact .plain htab (ih _)

/-- **The literals of an expanded text** are those of the text before, with their tabs expanded. -/
theorem literals_expandTabs (cs : List Char) :
    List.Forall₂ Expanded (literals cs) (literals (expandTabs cs)) :=
  expands_literalsFrom .code cs 0

/-- Literals without tabs stay as they are. -/
theorem eq_of_expanded (h : List.Forall₂ Expanded xs ys) (htab : ∀ raw ∈ xs, '\t' ∉ raw) :
    ys = xs := by
  induction h with
  | nil => rfl
  | cons hraw _ ih =>
    rw [List.forall_mem_cons] at htab
    obtain ⟨column, rfl⟩ := hraw
    rw [expandTabsFrom_eq_self htab.1, ih htab.2]

end Tabs

end Text

namespace Token

open Text

variable {cs : List Char}

/-! ## 3. Gaps and tokens -/

/-- A gap has no literals. -/
theorem literals_skipGap (cs : List Char) : literals (skipGap cs) = literals cs := by
  refine (skipGap.mutual_induct (fun cs => literals (skipGap cs) = literals cs)
    (fun cs => literals (skipComment cs) = literalsFrom .comment cs)
    ?nothing ?opened ?space ?token ?ended ?continued ?feed ?char).1 cs
  case nothing => rfl
  case opened => exact fun rest ih => ih
  case space =>
    intro c rest hcomment hgap ih
    have hplain : c ≠ '\'' ∧ c ≠ '/' := by
      rcases eq_of_isGapChar hgap with rfl | rfl | rfl | rfl <;> decide
    rw [skipGap.eq_3 c rest hcomment, if_pos hgap, ih]
    exact (literalsFrom_code hplain.1 fun hc => absurd hc hplain.2).symm
  case token =>
    intro c rest hcomment hgap
    rw [skipGap.eq_3 c rest hcomment, if_neg hgap]
  case ended => rfl
  case continued => exact fun rest ih => ih
  case feed => exact fun rest _ ih => ih
  case char =>
    intro c rest hcontinued hfeed ih
    rw [skipComment.eq_3 c rest hcontinued, if_neg hfeed, ih]
    exact (literalsFrom.eq_7 c rest hcontinued hfeed).symm

/-- No comment begins where a gap was skipped. -/
theorem skipGap_ne_comment (cs behind : List Char) : skipGap cs ≠ '/' :: '/' :: behind := by
  refine (skipGap.mutual_induct (fun cs => skipGap cs ≠ '/' :: '/' :: behind)
    (fun cs => skipComment cs ≠ '/' :: '/' :: behind)
    ?nothing ?opened ?space ?token ?ended ?continued ?feed ?char).1 cs
  case nothing => exact nofun
  case opened => exact fun rest ih => ih
  case space =>
    intro c rest hcomment hgap ih
    rwa [skipGap.eq_3 c rest hcomment, if_pos hgap]
  case token =>
    intro c rest hcomment hgap heq
    rw [skipGap.eq_3 c rest hcomment, if_neg hgap] at heq
    obtain ⟨rfl, rfl⟩ := List.cons.inj heq
    exact hcomment behind rfl rfl
  case ended => exact nofun
  case continued => exact fun rest ih => ih
  case feed => exact fun rest _ ih => ih
  case char =>
    intro c rest hcontinued hfeed ih
    rwa [skipComment.eq_3 c rest hcontinued, if_neg hfeed]

/-- The inside of a string. -/
def string? : Token → Option String
  | string raw => some raw
  | _ => none

theorem string?_ofWord (glued : Bool) (word behind : List Char) :
    (ofWord glued word behind).string? = none := by
  unfold ofWord
  simp only
  split
  · rfl
  · split <;> rfl

/-- A token has the literals that it is. -/
theorem literals_of_readAs {glued : Bool} {t : Token} {used behind : List Char}
    (h : ReadAs glued t used behind) (hcomment : ∀ rest, used ++ behind ≠ '/' :: '/' :: rest) :
    (literals (used ++ behind)).map String.ofList =
      t.string?.toList ++ (literals behind).map String.ofList := by
  cases h with
  | @word c cs _ hc hcs =>
    have hname : ∀ d ∈ c :: cs, isNameChar d :=
      List.forall_mem_cons.mpr ⟨isNameChar_of_isAlpha hc, hcs⟩
    rw [literals_append_of_plain (fun h => absurd (hname _ h) (by decide))
      fun h => absurd (hname _ h) (by decide), string?_ofWord]
    rfl
  | integer _ hcs =>
    have hquote : Text.isDigit '\'' = false := isDigit_eq_false (by decide)
    have hslash : Text.isDigit '/' = false := isDigit_eq_false (by decide)
    rw [literals_append_of_plain (fun h => Bool.eq_false_iff.mp hquote (hcs _ h))
      fun h => Bool.eq_false_iff.mp hslash (hcs _ h)]
    rfl
  | @string raw _ hq =>
    have hliteral : literals ('\'' :: (raw ++ ['\'']) ++ behind) = raw :: literals behind := by
      rw [List.cons_append, List.append_assoc]
      exact literalsFrom_append hq
    rw [hliteral]
    rfl
  | symbol s =>
    by_cases hdivide : s = .divide
    · -- a slash is no comment, as another one behind it would be
      subst hdivide
      have hbehind : behind.head? ≠ some '/' := fun hslash => by
        obtain ⟨rest, rfl⟩ := List.head?_eq_some_iff.mp hslash
        exact hcomment rest rfl
      exact congrArg _ (literalsFrom_code (by decide) fun _ => hbehind)
    · have hquote : '\'' ∉ s.spelling.toList := by cases s <;> decide
      have hslash : '/' ∉ s.spelling.toList := by
        cases s <;> first | exact absurd rfl hdivide | decide
      rw [literals_append_of_plain hquote hslash]
      rfl

end Token

namespace Scan

open Text Token

/-! ## 4. Whole texts -/

theorem strings_of_fromOffset (cs : List Char) (offset : Nat) (glued : Bool)
    (hcomplete : (fromOffset offset glued cs).complete) :
    ((fromOffset offset glued cs).lexemes.map (·.token)).filterMap string? =
      (literals cs).map String.ofList := by
  rw [← literals_skipGap]
  cases hread : Token.read (gluedAt glued cs) (skipGap cs) with
  | none =>
    obtain ⟨hlexemes, hempty⟩ := fromOffset_of_read_none offset hread
    rw [hempty, List.isEmpty_iff] at hcomplete
    rw [hlexemes, hcomplete]
    rfl
  | some r =>
    obtain ⟨t, behind⟩ := r
    obtain ⟨used, hused, hr⟩ := readAs_of_read hread
    obtain ⟨start, next, hstep⟩ := fromOffset_of_read offset hread
    have hlength : behind.length < cs.length :=
      Nat.lt_of_lt_of_le (read_length_lt hread) (skipGap_suffix cs).length_le
    have hliterals : (literals (skipGap cs)).map String.ofList =
        t.string?.toList ++ (literals behind).map String.ofList := by
      rw [hused]
      exact literals_of_readAs hr (hused ▸ skipGap_ne_comment cs)
    rw [hstep] at hcomplete ⊢
    rw [hliterals, List.map_cons, List.filterMap_cons, strings_of_fromOffset behind next _ hcomplete]
    cases t.string? <;> rfl
termination_by cs.length

/-- **The strings among the tokens** of a text that is scanned to its end are its literals. -/
theorem strings_of_scan {cs : List Char} (hcomplete : (ofText cs).complete) :
    ((ofText cs).lexemes.map (·.token)).filterMap string? = (literals cs).map String.ofList :=
  strings_of_fromOffset cs 0 false hcomplete

end Scan

end Rpal
