/-
# Where tokens stand in a spread text

If no tab is in a comment or a literal, a spread text has the tokens of the text.  A place of the text
moves with what is before it, to the length that this has with its tabs spread out (`Moved`).  So do
the tokens, the places where a keyword is missed, and the end of the scan (`follows_spread`).
-/
import Rpal.Proofs.Grammar.Agreement
import Rpal.Proofs.Token.Spreading

namespace Rpal

namespace Scan

open Text Token

variable {gap : ℕ → ℕ} {text cs front used behind here : List Char} {t : Token} {glued : Bool}

/-! ## 1. Places -/

/-- A place of a text in its code, and the place where the spread text goes on with the same. -/
structure Moved (gap : ℕ → ℕ) (text : List Char) (i j : ℕ) : Prop where
  le_length : i ≤ text.length
  code : tabsApart .code (text.drop i)
  moved : j = (spread gap 0 (text.take i)).length

theorem moved_of_append (gap : ℕ → ℕ) (htext : text = front ++ cs) (hcode : tabsApart .code cs) :
    Moved gap text front.length (spread gap 0 front).length := by
  subst htext
  refine ⟨?_, ?_, ?_⟩
  · simp
  · rwa [List.drop_left]
  · rw [List.take_left]

theorem Moved.le {i i' j j' : ℕ} (h : Moved gap text i j) (h' : Moved gap text i' j')
    (hle : i ≤ i') : j ≤ j' := by
  have htake : text.take i' = text.take i ++ (text.take i').drop i := by
    rw [← List.take_append_drop i (text.take i'), List.take_take, Nat.min_eq_left hle,
      List.drop_left' (by simp [h.le_length])]
  rw [h.moved, h'.moved, htake, length_spread_append]
  exact Nat.le_add_right _ _

theorem maxClosed_moved : Rule.MaxClosed (Moved gap text) := by
  intro i i' j j' h h'
  rcases Nat.le_total i j with hle | hle
  · rw [Nat.max_eq_right hle, Nat.max_eq_right (h.le h' hle)]
    exact h'
  · rw [Nat.max_eq_left hle, Nat.max_eq_left (h'.le h hle)]
    exact h

/-! ## 2. Steps of a scan -/

theorem length_beq_length_append (front here : List Char) :
    (here.length == (front ++ here).length) = front.isEmpty := by
  cases front with
  | nil => simp
  | cons c front =>
    rw [List.isEmpty_cons, beq_eq_false_iff_ne, List.length_append, List.length_cons]
    omega

/-- A gap, and then no token. -/
theorem fromOffset_of_gap (offset : ℕ) (hskip : skipGap (front ++ here) = here)
    (hread : Token.read (glued && front.isEmpty) here = none) :
    fromOffset offset glued (front ++ here) = ⟨[], offset + front.length, here.isEmpty⟩ := by
  have hlength : (front ++ here).length - here.length = front.length := by simp
  have hglued := length_beq_length_append front here
  rw [fromOffset]
  split
  · simp only [hskip, hlength]
  · rename_i hsome
    rw [hskip, hglued, hread] at hsome
    cases hsome

/-- A gap, a token, and what is scanned behind it. -/
theorem fromOffset_of_token (offset : ℕ)
    (hskip : skipGap (front ++ (used ++ behind)) = used ++ behind)
    (hread : Token.read (glued && front.isEmpty) (used ++ behind) = some (t, behind)) :
    fromOffset offset glued (front ++ (used ++ behind)) =
      let scan := fromOffset (offset + front.length + used.length)
        (used.getLast?.any isKeywordChar) behind
      ⟨⟨t, offset + front.length, glued && front.isEmpty⟩ :: scan.lexemes, scan.stop,
        scan.complete⟩ := by
  have hlength : (front ++ (used ++ behind)).length - (used ++ behind).length = front.length := by
    simp
  have hused : (used ++ behind).take ((used ++ behind).length - behind.length) = used := by simp
  have hglued := length_beq_length_append front (used ++ behind)
  rw [fromOffset]
  split
  · rename_i hnone
    rw [hskip, hglued, hread] at hnone
    cases hnone
  · rename_i t' behind' hsome
    rw [hskip, hglued, hread] at hsome
    cases hsome
    simp only [hskip, hlength, hused, hglued]

/-! ## 3. Keywords that are missed -/

/-- A word character right before a place, if one touches it. -/
def Touched (glued : Bool) (front : List Char) : Prop :=
  glued → ∃ before c, front = before ++ [c] ∧ isKeywordChar c

/-- A gap keeps the token behind it from being touched. -/
theorem Touched.append (h : Touched glued front) (between : List Char) :
    Touched (glued && between.isEmpty) (front ++ between) := by
  intro htouched
  rw [Bool.and_eq_true, List.isEmpty_iff] at htouched
  rw [htouched.2, List.append_nil]
  exact h htouched.1

theorem touched_getLast? (front used : List Char) :
    Touched (used.getLast?.any isKeywordChar) (front ++ used) := by
  intro h
  rcases List.eq_nil_or_concat used with rfl | ⟨init, c, rfl⟩
  · cases h
  · rw [List.concat_eq_append, List.getLast?_concat] at h
    exact ⟨front ++ init, c, by simp, h⟩

/-- One place further back, if a word character is there. -/
theorem moved_sub_one (htext : text = front ++ cs) (hcode : tabsApart .code cs)
    (htouched : Touched true front) :
    Moved gap text (front.length - 1) ((spread gap 0 front).length - 1) := by
  obtain ⟨before, c, rfl, hc⟩ := htouched rfl
  obtain ⟨hquote, hslash, htab⟩ := plain_of_isKeywordChar (List.forall_mem_singleton.mpr hc)
  rw [List.append_assoc] at htext
  rw [← tabsApart_append_of_plain hquote hslash] at hcode
  have hbefore := moved_of_append gap htext hcode
  rwa [length_spread_append, spread_eq_self htab, List.length_append, List.length_singleton,
    Nat.add_sub_cancel, Nat.add_sub_cancel]

/-- Further on, behind characters of a word. -/
theorem moved_add (htext : text = front ++ (used ++ behind))
    (hcode : tabsApart .code (used ++ behind)) (hused : ∀ c ∈ used, isKeywordChar c) :
    Moved gap text (front.length + used.length) ((spread gap 0 front).length + used.length) := by
  obtain ⟨hquote, hslash, htab⟩ := plain_of_isKeywordChar hused
  rw [← List.append_assoc] at htext
  rw [tabsApart_append_of_plain hquote hslash] at hcode
  have hbehind := moved_of_append gap htext hcode
  rwa [length_spread_append, spread_eq_self htab, List.length_append] at hbehind

/-- Where a keyword is missed, it is missed at the corresponding place. -/
theorem moved_missOf (w : Keyword) (htext : text = front ++ (used ++ behind))
    (hcode : tabsApart .code (used ++ behind)) (hread : ReadAs glued t used behind)
    (htouched : Touched glued front) :
    Moved gap text (Lexeme.missOf w ⟨t, front.length, glued⟩)
      (Lexeme.missOf w ⟨t, (spread gap 0 front).length, glued⟩) := by
  have hstart := moved_of_append gap htext hcode
  have hword : Lexeme.word? ⟨t, (spread gap 0 front).length, glued⟩ =
      Lexeme.word? ⟨t, front.length, glued⟩ := rfl
  unfold Lexeme.missOf
  rw [hword]
  cases hfound : Lexeme.word? ⟨t, front.length, glued⟩ with
  | none => exact hstart
  | some word =>
    simp only
    split
    · rename_i hletters
      cases glued with
      | true => exact moved_sub_one htext hcode htouched
      | false =>
        rw [toList_of_word? hread hfound, List.isPrefixOf_iff_prefix] at hletters
        obtain ⟨more, rfl⟩ := hletters
        obtain ⟨c, cs, hspelling, hc, hcs⟩ := spelling_keyword_cons w
        have hkeyword : ∀ d ∈ w.spelling.toList, isKeywordChar d := by
          rw [hspelling]
          exact List.forall_mem_cons.mpr ⟨isKeywordChar_of_isNameChar (isNameChar_of_isAlpha hc),
            fun d hd => isKeywordChar_of_isNameChar (hcs d hd)⟩
        rw [List.append_assoc] at htext hcode
        rw [← String.length_toList]
        exact moved_add htext hcode hkeyword
    · exact hstart

/-! ## 4. Whole texts -/

/-- **A spread text has the tokens of the text**, at the corresponding places. -/
theorem follows_fromOffset (hgap : ∀ column, gap column ≠ 0) (htext : text = front ++ cs)
    (hcode : tabsApart .code cs) (htouched : Touched glued front) :
    (fromOffset front.length glued cs).Follows (Moved gap text)
      (fromOffset (spread gap 0 front).length glued
        (spread gap (columnAfter gap 0 front) cs)) := by
  induction hlength : cs.length using Nat.strongRecOn generalizing cs front glued with
  | ind n ih =>
  obtain ⟨between, here, rfl, hhere, hagain, hskip, hskip'⟩ := exists_gap hgap hcode
  -- the text up to the token, and its places
  replace hskip' := hskip' (columnAfter gap 0 front)
  rw [← columnAfter_append] at hskip'
  have hspread : spread gap (columnAfter gap 0 front) (between ++ here) =
      spread gap (columnAfter gap 0 front) between ++
        spread gap (columnAfter gap 0 (front ++ between)) here := by
    rw [spread_append, columnAfter_append]
  have hplace := length_spread_append gap 0 front between
  have hempty : (spread gap (columnAfter gap 0 front) between).isEmpty = between.isEmpty :=
    isEmpty_spread hgap
  have htouched' := htouched.append between
  rw [← List.append_assoc] at htext
  have hread := readsAlike_read hgap (columnAfter gap 0 (front ++ between)) hagain hhere
    (glued && between.isEmpty)
  rw [hspread]
  generalize hr : Token.read (glued && between.isEmpty) here = r,
    hr' : Token.read (glued && between.isEmpty)
      (spread gap (columnAfter gap 0 (front ++ between)) here) = r' at hread
  rw [← hempty] at hr'
  cases hread with
  | none =>
    have hstop := moved_of_append gap htext hhere
    rw [fromOffset_of_gap _ hskip hr, fromOffset_of_gap _ hskip' hr', ← hplace,
      ← List.length_append]
    exact ⟨.nil, hstop, (isEmpty_spread hgap).symm⟩
  | some t used behind hused htab hbehind =>
    subst hused
    have hafter : spread gap (columnAfter gap 0 (front ++ between)) (used ++ behind) =
        used ++ spread gap (columnAfter gap 0 (front ++ between ++ used)) behind := by
      rw [spread_append, spread_eq_self htab, ← columnAfter_append]
    rw [hafter, ← columnAfter_append] at hr'
    rw [hafter] at hskip'
    obtain ⟨used', hused, hreadAs⟩ := readAs_of_read hr
    obtain rfl := List.append_cancel_right hused
    have hnext : behind.length < n := by
      have := read_length_lt hr
      rw [← hlength, List.length_append]
      omega
    have htext' : text = front ++ between ++ used ++ behind := by
      rw [htext, List.append_assoc (front ++ between)]
    have hrest := ih behind.length hnext htext' hbehind (touched_getLast? _ used) rfl
    have hlast : (front ++ between ++ used).length = (front ++ between).length + used.length :=
      List.length_append
    have hlast' : (spread gap 0 (front ++ between ++ used)).length =
        (spread gap 0 (front ++ between)).length + used.length := by
      rw [length_spread_append, spread_eq_self htab]
    rw [hlast, hlast'] at hrest
    rw [hafter, fromOffset_of_token _ hskip hr, fromOffset_of_token _ hskip' hr', ← hplace,
      ← List.length_append, hempty]
    exact ⟨.cons ⟨rfl, moved_of_append gap htext hhere,
      fun w => moved_missOf w htext hhere hreadAs htouched'⟩ hrest.lexemes, hrest.stop,
      hrest.complete⟩

/-- **A text and the text with its tabs spread out** have the same tokens, if no tab is in a comment
or a literal. -/
theorem follows_spread (hgap : ∀ column, gap column ≠ 0) (hcode : tabsApart .code text) :
    (ofText text).Follows (Moved gap text) (ofText (spread gap 0 text)) := by
  have htext : text = [] ++ text := rfl
  exact follows_fromOffset hgap htext hcode fun h => by cases h

end Scan

end Rpal
