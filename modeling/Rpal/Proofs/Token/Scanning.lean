/-
# The tokens of a scanned text

A text that is scanned to its end consists of tokens that have a spelling (`lexical_of_scan`), but
for two reasons.  A tab within a string literal is kept, and a reserved word that touches a
word character is read as a name: behind a digit, as in `1in`, since behind a name the word would
be a part of it.  In front of a dollar sign the same happens, but there the scan stops.
`Stands` is what is left to say of every token of such a text (`stands_of_scan`).
-/
import Rpal.Proofs.Token.Spelling

namespace Rpal

namespace Token

/-! ## 1. Single tokens -/

/-- How a token is read from the start of `used ++ behind`. -/
inductive ReadAs (glued : Bool) : Token → List Char → List Char → Prop where
  | word {c : Char} {cs behind : List Char} (hc : c.isAlpha) (hcs : ∀ d ∈ cs, isNameChar d)
      (hb : ∀ d ∈ behind.head?, ¬ isNameChar d) :
      ReadAs glued (ofWord glued (c :: cs) behind) (c :: cs) behind
  | integer {cs behind : List Char} (hne : cs ≠ []) (hcs : ∀ d ∈ cs, Text.isDigit d) :
      ReadAs glued (.integer (String.ofList cs)) cs behind
  | string {cs behind : List Char} (h : Quotable cs) :
      ReadAs glued (.string (String.ofList cs)) ('\'' :: (cs ++ ['\''])) behind
  | symbol (s : Symbol) {behind : List Char} : ReadAs glued (.symbol s) s.spelling.toList behind

theorem takeWhile_forall (p : Char → Bool) (cs : List Char) : ∀ d ∈ cs.takeWhile p, p d :=
  List.all_eq_true.mp List.all_takeWhile

theorem readAs_of_read {glued : Bool} {cs behind : List Char} {t : Token}
    (h : read glued cs = some (t, behind)) :
    ∃ used, cs = used ++ behind ∧ ReadAs glued t used behind := by
  cases cs with
  | nil => cases h
  | cons c rest =>
    rw [read] at h
    split at h
    · rename_i hc
      cases h
      refine ⟨c :: rest.takeWhile isNameChar, ?_, .word hc (takeWhile_forall _ _) ?_⟩
      · rw [List.cons_append, List.takeWhile_append_dropWhile]
      · intro d hd
        have hstop := List.head?_dropWhile_not isNameChar rest
        rw [hd] at hstop
        exact Bool.eq_false_iff.mp hstop
    · split at h
      · rename_i hc
        cases h
        refine ⟨c :: rest.takeWhile Text.isDigit, ?_, .integer (List.cons_ne_nil _ _) ?_⟩
        · rw [List.cons_append, List.takeWhile_append_dropWhile]
        · exact List.forall_mem_cons.mpr ⟨hc, takeWhile_forall _ _⟩
      · split at h
        · rename_i hc
          subst hc
          obtain ⟨⟨raw, behind⟩, hr, he⟩ := Option.map_eq_some_iff.mp h
          obtain ⟨rfl, rfl⟩ := Prod.mk.inj he
          exact ⟨_, by simp [readString_eq hr], .string (quotable_of_readString hr)⟩
        · obtain ⟨⟨s, behind⟩, hr, he⟩ := Option.map_eq_some_iff.mp h
          obtain ⟨rfl, rfl⟩ := Prod.mk.inj he
          exact ⟨_, readSymbol_eq hr, .symbol s⟩

/-- The reserved word stands at the start of a text, as a whole word. -/
def WordAt (w : Keyword) (cs : List Char) : Prop :=
  ∃ rest : List Char, cs = w.spelling.toList ++ rest ∧ ∀ c ∈ rest.head?, ¬ isNameChar c

/-- A reserved word stands at the start of a text. -/
def ReservedAt (cs : List Char) : Prop :=
  ∃ (w : Keyword) (rest : List Char), cs = w.spelling.toList ++ rest ∧
    ∀ c ∈ rest.head?, ¬ isNameChar c

/-- The reserved word stands directly behind a digit somewhere in a text. -/
def BehindDigit (w : Keyword) (cs : List Char) : Prop :=
  ∃ (before : List Char) (digit : Char) (rest : List Char), cs = before ++ digit :: rest ∧
    digit.isDigit ∧ WordAt w rest

/-- A reserved word stands directly behind a digit somewhere in a text. -/
def ReservedBehindDigit (cs : List Char) : Prop :=
  ∃ (before : List Char) (digit : Char) (rest : List Char), cs = before ++ digit :: rest ∧
    digit.isDigit ∧ ReservedAt rest

theorem BehindDigit.reserved {w : Keyword} {cs : List Char} (h : BehindDigit w cs) :
    ReservedBehindDigit cs := by
  obtain ⟨before, digit, rest, hcs, hdigit, hat⟩ := h
  exact ⟨before, digit, rest, hcs, hdigit, w, hat⟩

/-- A word character that is a digit is one of `0` to `9`. -/
theorem isDigit_of_isKeywordChar {c : Char} (h : isKeywordChar c) (hc : Text.isDigit c) :
    c.isDigit := by
  simp only [isKeywordChar, isNameChar, Char.isAlphanum, Bool.or_eq_true, decide_eq_true_eq] at h
  rcases h with ((h | h) | rfl) | rfl
  · rw [isDigit_of_isAlpha h] at hc
    exact absurd hc Bool.false_ne_true
  · exact h
  · exact absurd hc (by decide)
  · exact absurd hc (by decide)

/-! ## 2. From token to token -/

/-- A letter, then letters, digits and underscores. -/
def IsWord (name : String) : Prop :=
  ∃ c cs, name.toList = c :: cs ∧ c.isAlpha ∧ ∀ d ∈ cs, isNameChar d

/-- What is known of a token of a text: a name is a word, which is reserved only if it stands
directly behind a digit, and the characters of a string stand in the text. -/
def Stands (text : List Char) : Token → Prop
  | identifier name => IsWord name ∧ ∀ w, Keyword.ofSpelling? name = some w → BehindDigit w text
  | integer digits => IsDigits digits
  | string raw => Quotable raw.toList ∧ raw.toList ⊆ text
  | keyword _ | symbol _ => True

/-- What is left of a text behind some tokens; `glued` tells about the character before. -/
structure Rest (text : List Char) (glued : Bool) (cs : List Char) : Prop where
  suffix : cs <:+ text
  start : glued → ∀ w, WordAt w cs → BehindDigit w text

variable {text : List Char}

/-- A token is what is known of it, unless a dollar sign is behind it. -/
theorem Rest.stands {glued : Bool} {used behind : List Char} {t : Token}
    (h : Rest text glued (used ++ behind)) (hr : ReadAs glued t used behind)
    (hb : behind.head? ≠ some '$') : t.Stands text := by
  cases hr with
  -- Only a word takes an argument: one that spells a keyword is read as a name only right behind a
  -- name character, and then the text has that keyword behind a digit.
  | @word c cs _ hc hcs hend =>
    have hword : IsWord (String.ofList (c :: cs)) := ⟨c, cs, String.toList_ofList, hc, hcs⟩
    cases hw : Keyword.ofSpelling? (String.ofList (c :: cs)) with
    | none =>
      have hname := ofWord_eq_identifier hw glued behind
      rw [String.toList_ofList] at hname
      rw [hname]
      exact ⟨hword, fun w hw' => by cases hw.symm.trans hw'⟩
    | some w =>
      have hspelling : w.spelling.toList = c :: cs := by
        rw [Keyword.spelling_of_ofSpelling? hw, String.toList_ofList]
      have hany : behind.head?.any isKeywordChar = false := by
        cases hhead : behind.head? with
        | none => rfl
        | some d =>
          have hname := Bool.eq_false_iff.mpr (hend d hhead)
          have hdollar : d ≠ '$' := fun hd => hb (by rw [hhead, hd])
          simp [isKeywordChar, hname, hdollar]
      cases glued with
      | false =>
        simp only [ofWord, hany, hw, Bool.or_self, Bool.false_eq_true, if_false]
        trivial
      | true =>
        refine ⟨hword, fun w' hw' => ?_⟩
        obtain rfl : w = w' := Option.some.inj (hw.symm.trans hw')
        exact h.start rfl w ⟨behind, by rw [hspelling], hend⟩
  | integer hne hcs =>
    refine ⟨?_, ?_⟩
    · rwa [String.toList_ofList]
    · rwa [String.toList_ofList]
  | @string cs _ hq =>
    refine ⟨?_, ?_⟩
    · rwa [String.toList_ofList]
    · rw [String.toList_ofList]
      exact fun c hc => h.suffix.subset (by simp [hc])
  | symbol s => trivial

/-- What is left behind a token is left of the text as well. -/
theorem Rest.behind {glued glued' : Bool} {used behind : List Char} {t : Token}
    (h : Rest text glued' (used ++ behind)) (hr : ReadAs glued t used behind) :
    Rest text (used.getLast?.any isKeywordChar) behind := by
  refine ⟨(List.suffix_append used behind).trans h.suffix, fun hlast w hat => ?_⟩
  cases hr with
  | word hc hcs hend =>
    obtain ⟨rest, rfl, -⟩ := hat
    obtain ⟨c, cs, hw, hc, -⟩ := spelling_keyword_cons w
    rw [hw] at hend
    exact absurd (isNameChar_of_isAlpha hc) (hend c rfl)
  | integer hne hcs =>
    obtain ⟨digits, digit, rfl⟩ := List.eq_nil_or_concat used |>.resolve_left hne
    rw [List.concat_eq_append, List.getLast?_concat] at hlast
    have hdigit := isDigit_of_isKeywordChar hlast (hcs digit (by simp))
    obtain ⟨before, hbefore⟩ := h.suffix
    exact ⟨before ++ digits, digit, behind, by simp [← hbefore], hdigit, hat⟩
  | @string cs _ hq =>
    rw [← List.cons_append, List.getLast?_concat] at hlast
    exact absurd hlast (by decide)
  | symbol s => cases s <;> exact absurd hlast (by decide)

/-- A token of a text without tabs has a spelling if no reserved word stands directly behind a
digit there. -/
theorem Stands.lexical {t : Token} (h : t.Stands text) (htab : '\t' ∉ text)
    (hdigit : ¬ ReservedBehindDigit text) : t.Lexical := by
  cases t with
  | identifier name =>
    refine ⟨h.1, Option.eq_none_iff_forall_ne_some.mpr fun w hw => ?_⟩
    exact hdigit (h.2 w hw).reserved
  | integer digits => exact h
  | string raw => exact ⟨fun hmem => htab (h.2 hmem), h.1⟩
  | keyword w => trivial
  | symbol s => trivial

end Token

namespace Scan

open Token

/-! ## 3. Whole texts -/

/-- Nothing is read from a dollar sign. -/
theorem complete_dollar (offset : Nat) (glued : Bool) (cs : List Char) :
    (fromOffset offset glued ('$' :: cs)).complete = false := by
  have hskip : skipGap ('$' :: cs) = '$' :: cs := by
    rw [skipGap.eq_3 _ _ fun rest h => absurd h (by decide)]
    rfl
  rw [(fromOffset_of_read_none offset (by rw [hskip]; rfl)).2, hskip]
  rfl

theorem stands_of_fromOffset {text : List Char} (cs : List Char) (offset : Nat) (glued : Bool)
    (h : Rest text glued cs) (hcomplete : (fromOffset offset glued cs).complete) :
    ∀ l ∈ (fromOffset offset glued cs).lexemes, l.token.Stands text := by
  have hsuffix := skipGap_suffix cs
  have hhere : Rest text (gluedAt glued cs) (skipGap cs) := by
    refine ⟨hsuffix.trans h.suffix, fun hglued => ?_⟩
    -- only where there is no gap does the character before touch
    obtain ⟨hg, hlength⟩ := Bool.and_eq_true_iff.mp hglued
    rw [hsuffix.eq_of_length (eq_of_beq hlength)]
    exact h.start hg
  cases hread : Token.read (gluedAt glued cs) (skipGap cs) with
  | none =>
    rw [(fromOffset_of_read_none offset hread).1]
    exact fun l hl => by cases hl
  | some r =>
    obtain ⟨t, behind⟩ := r
    obtain ⟨used, hused, hr⟩ := readAs_of_read hread
    obtain ⟨start, next, hstep⟩ := fromOffset_of_read offset hread
    have hlength : behind.length < cs.length :=
      Nat.lt_of_lt_of_le (read_length_lt hread) hsuffix.length_le
    have htake : (skipGap cs).take ((skipGap cs).length - behind.length) = used := by
      rw [hused, List.length_append, Nat.add_sub_cancel, List.take_left]
    rw [hstep, htake] at hcomplete ⊢
    rw [hused] at hhere
    refine List.forall_mem_cons.mpr ⟨hhere.stands hr fun hdollar => ?_,
      stands_of_fromOffset behind next _ (hhere.behind hr) hcomplete⟩
    obtain ⟨rest, rfl⟩ := List.head?_eq_some_iff.mp hdollar
    rw [complete_dollar] at hcomplete
    cases hcomplete
termination_by cs.length

/-- **What is known of the tokens** of a text that is scanned to its end. -/
theorem stands_of_scan {cs : List Char} (hcomplete : (ofText cs).complete) :
    ∀ t ∈ (ofText cs).lexemes.map (·.token), t.Stands cs := by
  refine List.forall_mem_map.mpr ?_
  exact stands_of_fromOffset cs 0 false ⟨List.suffix_refl cs, fun h => by cases h⟩ hcomplete

/-- **The tokens of a text** that is scanned to its end have a spelling. -/
theorem lexical_of_scan {cs : List Char} (htab : '\t' ∉ cs) (hdigit : ¬ ReservedBehindDigit cs)
    (hcomplete : (ofText cs).complete) :
    ∀ t ∈ (ofText cs).lexemes.map (·.token), t.Lexical :=
  fun t ht => (stands_of_scan hcomplete t ht).lexical htab hdigit

end Scan

end Rpal
