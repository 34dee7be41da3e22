/-
# Tokens and their spellings

A token has a spelling if its text is one that the scanner can meet: a name that is not reserved,
digits, or the inside of a string literal without tabs.  Such a token is read back from its
spelling where nothing touches its end (`read_spelling`).
-/
import Rpal.Token.Scanner

namespace Rpal

namespace Token

/-! ## 1. The texts of tokens -/

/-- A letter, then letters, digits and underscores, that are no reserved word. -/
def IsName (name : String) : Prop :=
  (∃ c cs, name.toList = c :: cs ∧ c.isAlpha ∧ ∀ d ∈ cs, isNameChar d) ∧
    Keyword.ofSpelling? name = none

/-- At least one digit, and nothing else. -/
def IsDigits (digits : String) : Prop :=
  digits.toList ≠ [] ∧ ∀ c ∈ digits.toList, Text.isDigit c

/-- Pairs of a backslash and a character other than a line feed, and characters other than quote
and backslash. -/
inductive Quotable : List Char → Prop where
  | nil : Quotable []
  | pair {c : Char} {cs : List Char} (hc : c ≠ '\n') (h : Quotable cs) : Quotable ('\\' :: c :: cs)
  | plain {c : Char} {cs : List Char} (hq : c ≠ '\'') (hb : c ≠ '\\') (h : Quotable cs) :
      Quotable (c :: cs)

/-- The inside of a string literal without tabs. -/
def IsLiteral (raw : String) : Prop := '\t' ∉ raw.toList ∧ Quotable raw.toList

/-- The token has a spelling. -/
def Lexical : Token → Prop
  | identifier name => IsName name
  | integer digits => IsDigits digits
  | string raw => IsLiteral raw
  | keyword _ | symbol _ => True

/-- A token as it is written. -/
def spelling : Token → List Char
  | identifier name => name.toList
  | keyword w => w.spelling.toList
  | integer digits => digits.toList
  | string raw => '\'' :: (raw.toList ++ ['\''])
  | symbol s => s.spelling.toList

/-! ## 2. Classes of characters -/

/-- No letter and no quote is a digit. -/
theorem isDigit_eq_false {c : Char} (h : c.toNat < 48 ∨ 58 ≤ c.toNat ∧ c.toNat < 1632) :
    Text.isDigit c = false := by
  have hnone :
      Text.digitZeros.find? (fun first => first ≤ c.toNat && c.toNat < first + 10) = none := by
    have hzeros : ∀ z ∈ Text.digitZeros, z = 48 ∨ 1632 ≤ z := by decide
    refine List.find?_eq_none.mpr fun z hz hin => ?_
    simp only [Bool.and_eq_true, decide_eq_true_eq] at hin
    rcases hzeros z hz with rfl | hz <;> omega
  rw [Text.isDigit, Text.digitValue?, hnone]
  rfl

/-- A letter of a name is not a digit, in any script. -/
theorem isDigit_of_isAlpha {c : Char} (h : c.isAlpha) : Text.isDigit c = false := by
  refine isDigit_eq_false (.inr ?_)
  delta Char.isAlpha Char.isUpper Char.isLower at h
  simp only [Bool.or_eq_true, Bool.and_eq_true, decide_eq_true_eq, ge_iff_le,
    UInt32.le_iff_toNat_le] at h
  have h' : (65 ≤ c.toNat ∧ c.toNat ≤ 90) ∨ (97 ≤ c.toNat ∧ c.toNat ≤ 122) := h
  omega

/-- The characters between tokens. -/
theorem eq_of_isGapChar {c : Char} (h : isGapChar c) : c = ' ' ∨ c = '\n' ∨ c = '\t' ∨ c = '\r' := by
  simpa only [isGapChar, Bool.or_eq_true, decide_eq_true_eq, or_assoc] using h

/-- Nothing, or a character that separates tokens. -/
def Apart (behind : List Char) : Prop := ∀ c ∈ behind.head?, isGapChar c

/-- The property fails at all characters between tokens. -/
def NoGap (p : Char → Bool) : Prop := ∀ c, isGapChar c → p c = false

/-- There are four characters to look at. -/
theorem noGap_of {p : Char → Bool}
    (h : p ' ' = false ∧ p '\n' = false ∧ p '\t' = false ∧ p '\r' = false) : NoGap p := by
  intro c hc
  rcases eq_of_isGapChar hc with rfl | rfl | rfl | rfl
  · exact h.1
  · exact h.2.1
  · exact h.2.2.1
  · exact h.2.2.2

/-- What comes next has no property that all of them lack. -/
theorem Apart.head?_any {behind : List Char} (h : Apart behind) {p : Char → Bool} (hp : NoGap p) :
    behind.head?.any p = false := by
  cases behind with
  | nil => rfl
  | cons c cs => exact hp c (h c rfl)

/-- What is taken while a property holds, in front of a gap. -/
theorem takeWhile_apart {p : Char → Bool} {cs behind : List Char} (hcs : ∀ c ∈ cs, p c)
    (hb : Apart behind) (hp : NoGap p) :
    (cs ++ behind).takeWhile p = cs ∧ (cs ++ behind).dropWhile p = behind := by
  rw [List.takeWhile_append_of_pos hcs, List.dropWhile_append_of_pos hcs]
  cases behind with
  | nil => simp
  | cons c behind => simp [hp c (hb c rfl)]

/-! ## 3. Reading a token back -/

theorem readString_cons {c : Char} (hc : c ≠ '\\') (rest : List Char) :
    readString (c :: rest) = if c = '\'' then some ([], rest)
      else (readString rest).map fun (raw, behind) => (c :: raw, behind) := by
  rw [readString.eq_3 c rest fun _ _ h => absurd h hc, if_neg hc]

/-- A literal is read up to its own quote. -/
theorem readString_append {cs : List Char} (h : Quotable cs) (behind : List Char) :
    readString (cs ++ '\'' :: behind) = some (cs, behind) := by
  induction h with
  | nil => exact readString_cons (by decide) behind
  | pair hc _ ih => simp [readString, hc, ih]
  | plain hq hb _ ih => rw [List.cons_append, readString_cons hb, if_neg hq, ih, Option.map_some]

/-- What was read as the inside of a literal can stand between quotes. -/
theorem quotable_of_readString {cs raw behind : List Char}
    (h : readString cs = some (raw, behind)) : Quotable raw := by
  fun_induction readString cs generalizing raw behind with
  | case1 => cases h
  | case2 => cases h
  | case3 c rest hc ih =>
    obtain ⟨⟨raw, behind⟩, hr, he⟩ := Option.map_eq_some_iff.mp h
    obtain ⟨rfl, rfl⟩ := Prod.mk.inj he
    exact .pair hc (ih hr)
  | case4 =>
    cases h
    exact .nil
  | case5 => cases h
  | case6 c rest _ hq hb ih =>
    obtain ⟨⟨raw, behind⟩, hr, he⟩ := Option.map_eq_some_iff.mp h
    obtain ⟨rfl, rfl⟩ := Prod.mk.inj he
    exact .plain hq hb (ih hr)

/-- In front of a gap no symbol is taken for a longer one. -/
theorem readSymbol_append (s : Symbol) {behind : List Char} (hb : Apart behind) :
    readSymbol (s.spelling.toList ++ behind) = some (s, behind) := by
  cases behind with
  | nil => cases s <;> rfl
  | cons c behind =>
    rcases eq_of_isGapChar (hb c rfl) with rfl | rfl | rfl | rfl <;> cases s <;> rfl

/-- A reserved word is one, if neither side of it touches a word. -/
theorem ofWord_eq_keyword (w : Keyword) {behind : List Char} (hb : Apart behind) :
    ofWord false w.spelling.toList behind = .keyword w := by
  have hhead : behind.head?.any isKeywordChar = false := hb.head?_any (noGap_of (by decide))
  simp only [ofWord, hhead, Bool.or_self, Bool.false_eq_true, if_false, String.ofList_toList,
    Keyword.ofSpelling?_spelling]

/-- Any other word is a name, whatever touches it. -/
theorem ofWord_eq_identifier {name : String} (h : Keyword.ofSpelling? name = none) (glued : Bool)
    (behind : List Char) : ofWord glued name.toList behind = .identifier name := by
  simp only [ofWord, String.ofList_toList, h, ite_self]

theorem read_word {c : Char} {cs behind : List Char} (hc : c.isAlpha) (hcs : ∀ d ∈ cs, isNameChar d)
    (hb : Apart behind) (glued : Bool) :
    read glued (c :: cs ++ behind) = some (ofWord glued (c :: cs) behind, behind) := by
  obtain ⟨htake, hdrop⟩ := takeWhile_apart hcs hb (noGap_of (by decide))
  simp only [List.cons_append, read, hc, if_true, htake, hdrop]

/-- A reserved word is one that names could be made of. -/
theorem spelling_keyword_cons (w : Keyword) : ∃ c cs, w.spelling.toList = c :: cs ∧ c.isAlpha ∧
    ∀ d ∈ cs, isNameChar d := by
  cases w <;> exact ⟨_, _, rfl, by decide, List.all_eq_true.mp (by decide)⟩

/-- **A token is read back** from its spelling, in front of a gap or nothing. -/
theorem read_spelling {t : Token} (h : t.Lexical) {behind : List Char} (hb : Apart behind) :
    read false (t.spelling ++ behind) = some (t, behind) := by
  -- The first character of a spelling decides which reader is tried; the gap behind it stops that
  -- reader where the spelling ends.
  cases t with
  | identifier name =>
    obtain ⟨⟨c, cs, hname, hc, hcs⟩, hnone⟩ := h
    rw [spelling, hname, read_word hc hcs hb, ← hname, ofWord_eq_identifier hnone]
  | keyword w =>
    obtain ⟨c, cs, hw, hc, hcs⟩ := spelling_keyword_cons w
    rw [spelling, hw, read_word hc hcs hb, ← hw, ofWord_eq_keyword w hb]
  | integer digits =>
    obtain ⟨hne, hdigits⟩ := h
    obtain ⟨c, cs, hcs⟩ := List.exists_cons_of_ne_nil hne
    rw [hcs, List.forall_mem_cons] at hdigits
    obtain ⟨htake, hdrop⟩ := takeWhile_apart hdigits.2 hb (noGap_of (by decide))
    have halpha : ¬ c.isAlpha := fun hc => by
      rw [isDigit_of_isAlpha hc] at hdigits
      exact Bool.false_ne_true hdigits.1
    rw [spelling, hcs, List.cons_append]
    simp only [read, halpha, hdigits.1, if_true, Bool.false_eq_true, if_false, htake, hdrop]
    rw [← hcs, String.ofList_toList]
  | string raw =>
    have hdigit : Text.isDigit '\'' = false := isDigit_eq_false (by decide)
    have happend : spelling (.string raw) ++ behind = '\'' :: (raw.toList ++ '\'' :: behind) := by
      simp [spelling]
    rw [happend, read, if_neg (by decide), hdigit, if_neg Bool.false_ne_true, if_pos rfl,
      readString_append h.2, Option.map_some]
    simp only [String.ofList_toList]
  | symbol s =>
    obtain ⟨c, cs, hs, halpha, hdigit, hquote⟩ : ∃ c cs, s.spelling.toList = c :: cs ∧
        ¬ c.isAlpha ∧ ¬ Text.isDigit c ∧ c ≠ '\'' := by
      cases s <;> exact ⟨_, _, rfl, by decide, by decide, by decide⟩
    have hread := readSymbol_append s hb
    rw [spelling, hs, List.cons_append, read, if_neg halpha, if_neg hdigit, if_neg hquote]
    rw [hs, List.cons_append] at hread
    rw [hread, Option.map_some]

/-! ## 4. Where a spelling begins -/

theorem isNameChar_of_isAlpha {c : Char} (h : c.isAlpha) : isNameChar c := by
  simp [isNameChar, Char.isAlphanum, h]

/-- A spelling has no tab. -/
theorem tab_notMem_spelling {t : Token} (h : t.Lexical) : '\t' ∉ t.spelling := by
  cases t with
  | identifier name =>
    obtain ⟨⟨c, cs, hname, hc, hcs⟩, -⟩ := h
    rw [spelling, hname]
    intro htab
    rcases List.mem_cons.mp htab with rfl | htab
    · exact absurd hc (by decide)
    · exact absurd (hcs _ htab) (by decide)
  | keyword w => cases w <;> decide
  | integer digits =>
    intro htab
    exact absurd (h.2 _ htab) (by decide)
  | string raw => simpa [spelling] using h.1
  | symbol s => cases s <;> decide

/-- A spelling begins with neither a gap nor a comment. -/
theorem spelling_cons {t : Token} (h : t.Lexical) :
    ∃ c cs, t.spelling = c :: cs ∧ isGapChar c = false ∧ (c = '/' → cs = []) := by
  have hgap : ∀ {c : Char}, isGapChar c → c.isAlpha = false ∧ Text.isDigit c = false := by
    intro c hc
    rcases eq_of_isGapChar hc with rfl | rfl | rfl | rfl <;> decide
  cases t with
  | identifier name =>
    obtain ⟨⟨c, cs, hname, hc, -⟩, -⟩ := h
    refine ⟨c, cs, hname, Bool.eq_false_iff.mpr fun hg => ?_, fun hslash => ?_⟩
    · exact absurd hc (by rw [(hgap hg).1]; decide)
    · exact absurd hc (by rw [hslash]; decide)
  | keyword w => cases w <;> exact ⟨_, _, rfl, by decide, by decide⟩
  | integer digits =>
    obtain ⟨c, cs, hcs⟩ := List.exists_cons_of_ne_nil h.1
    have hc : Text.isDigit c := h.2 c (by rw [hcs]; exact List.mem_cons_self)
    refine ⟨c, cs, hcs, Bool.eq_false_iff.mpr fun hg => ?_, fun hslash => ?_⟩
    · exact absurd hc (by rw [(hgap hg).2]; decide)
    · exact absurd hc (by rw [hslash]; decide)
  | string raw => exact ⟨_, _, rfl, by decide, fun hslash => absurd hslash (by decide)⟩
  | symbol s => cases s <;> exact ⟨_, _, rfl, by decide, by decide⟩

theorem skipGap_gapChar {c : Char} (hc : isGapChar c) (cs : List Char) :
    skipGap (c :: cs) = skipGap cs := by
  rcases eq_of_isGapChar hc with rfl | rfl | rfl | rfl <;> rfl

/-- A token is no part of a gap. -/
theorem skipGap_spelling {t : Token} (h : t.Lexical) {behind : List Char} (hb : Apart behind) :
    skipGap (t.spelling ++ behind) = t.spelling ++ behind := by
  obtain ⟨c, cs, hcs, hgap, hslash⟩ := spelling_cons h
  rw [hcs, List.cons_append, skipGap.eq_3, hgap, if_neg Bool.false_ne_true]
  rintro rest rfl hrest
  rw [hslash rfl, List.nil_append] at hrest
  subst hrest
  exact absurd (hb '/' rfl) (by decide)

/-! ## 5. Tokens with blanks between them -/

/-- Tokens, each behind a blank. -/
def behindBlanks (ts : List Token) : List Char := ts.flatMap fun t => ' ' :: t.spelling

/-- Tokens written out with a single blank between any two. -/
def written (ts : List Token) : String :=
  String.ofList ([' '].intercalate (ts.map spelling))

theorem toList_written_cons (t : Token) (ts : List Token) :
    (written (t :: ts)).toList = t.spelling ++ behindBlanks ts := by
  rw [written, String.toList_ofList]
  induction ts generalizing t with
  | nil => simp [behindBlanks, List.intercalate]
  | cons u us ih =>
    rw [List.map_cons, List.map_cons, List.intercalate_cons_cons, ← List.map_cons, ih u]
    simp [behindBlanks]

/-- A blank or nothing stands behind every token. -/
theorem apart_behindBlanks (ts : List Token) : Apart (behindBlanks ts) := by
  cases ts with
  | nil => exact fun c hc => by cases hc
  | cons t ts =>
    intro c hc
    obtain rfl : ' ' = c := Option.some.inj hc
    rfl

theorem tab_notMem_written {ts : List Token} (h : ∀ t ∈ ts, t.Lexical) :
    '\t' ∉ (written ts).toList := by
  cases ts with
  | nil => exact List.not_mem_nil
  | cons t ts =>
    rw [List.forall_mem_cons] at h
    rw [toList_written_cons, List.mem_append, not_or]
    refine ⟨tab_notMem_spelling h.1, fun htab => ?_⟩
    obtain ⟨u, hu, hmem⟩ := List.mem_flatMap.mp htab
    rcases List.mem_cons.mp hmem with hblank | hmem
    · exact absurd hblank (by decide)
    · exact tab_notMem_spelling (h.2 u hu) hmem

end Token

namespace Scan

open Token

/-- Whether a word character stands right before what is left of a text behind its gap. -/
def gluedAt (glued : Bool) (cs : List Char) : Bool :=
  glued && (skipGap cs).length == cs.length

/-- A scan with a token: where it stands and where the next one is looked for. -/
theorem fromOffset_of_read (offset : Nat) {glued : Bool} {cs behind : List Char} {t : Token}
    (h : Token.read (gluedAt glued cs) (skipGap cs) = some (t, behind)) :
    ∃ start next, fromOffset offset glued cs =
      let scan := fromOffset next (((skipGap cs).take
        ((skipGap cs).length - behind.length)).getLast?.any isKeywordChar) behind
      { scan with lexemes := ⟨t, start, gluedAt glued cs⟩ :: scan.lexemes } := by
  refine ⟨offset + (cs.length - (skipGap cs).length), offset + (cs.length - (skipGap cs).length) +
    ((skipGap cs).take ((skipGap cs).length - behind.length)).length, ?_⟩
  rw [fromOffset]
  split
  · rename_i hnone
    cases h.symm.trans hnone
  · rename_i t' behind' hsome
    cases h.symm.trans hsome
    rfl

/-- A scan without one: it is complete if nothing is left. -/
theorem fromOffset_of_read_none (offset : Nat) {glued : Bool} {cs : List Char}
    (h : Token.read (gluedAt glued cs) (skipGap cs) = none) :
    (fromOffset offset glued cs).lexemes = [] ∧
      (fromOffset offset glued cs).complete = (skipGap cs).isEmpty := by
  rw [fromOffset]
  split
  · exact ⟨rfl, rfl⟩
  · rename_i hsome
    cases h.symm.trans hsome

/-- The scan read the whole text, and these are its tokens. -/
def Finds (scan : Scan) (ts : List Token) : Prop :=
  scan.lexemes.map (·.token) = ts ∧ scan.complete

section Known

variable {cs behind : List Char} {t : Token} {ts : List Token}

/-- A gap that reaches to the end has no token behind it. -/
theorem finds_nothing (h : skipGap cs = []) (offset : Nat) (glued : Bool) :
    Finds (fromOffset offset glued cs) [] := by
  obtain ⟨hlexemes, hcomplete⟩ := fromOffset_of_read_none offset
    (show Token.read (gluedAt glued cs) (skipGap cs) = none by rw [h]; rfl)
  exact ⟨by rw [hlexemes]; rfl, by rw [hcomplete, h]; rfl⟩

/-- A scan goes on behind the first token. -/
theorem finds_of_read {glued : Bool} (offset : Nat)
    (h : Token.read (gluedAt glued cs) (skipGap cs) = some (t, behind))
    (ih : ∀ offset glued, Finds (fromOffset offset glued behind) ts) :
    Finds (fromOffset offset glued cs) (t :: ts) := by
  obtain ⟨start, next, hstep⟩ := fromOffset_of_read offset h
  obtain ⟨htokens, hcomplete⟩ := ih next _
  rw [hstep]
  exact ⟨congrArg (t :: ·) htokens, hcomplete⟩

/-- A token behind a gap touches nothing. -/
theorem finds_behind_gap {c : Char} (hc : isGapChar c)
    (h : Token.read false (skipGap cs) = some (t, behind))
    (ih : ∀ offset glued, Finds (fromOffset offset glued behind) ts) (offset : Nat)
    (glued : Bool) : Finds (fromOffset offset glued (c :: cs)) (t :: ts) := by
  have hskip : skipGap (c :: cs) = skipGap cs := skipGap_gapChar hc cs
  have hlength : (skipGap cs).length ≠ cs.length + 1 :=
    Nat.ne_of_lt (Nat.lt_succ_of_le (skipGap_suffix cs).length_le)
  have hat : gluedAt glued (c :: cs) = false := by
    rw [gluedAt, hskip, List.length_cons, beq_eq_false_iff_ne.mpr hlength, Bool.and_false]
  exact finds_of_read offset (by rw [hat, hskip]; exact h) ih

/-- A token beside another one, if it is the same whatever it touches. -/
theorem finds_beside (hskip : skipGap cs = cs)
    (h : ∀ glued, Token.read glued cs = some (t, behind))
    (ih : ∀ offset glued, Finds (fromOffset offset glued behind) ts) (offset : Nat)
    (glued : Bool) : Finds (fromOffset offset glued cs) (t :: ts) :=
  finds_of_read offset (by rw [hskip]; exact h _) ih

theorem read_skipGap_spelling (ht : t.Lexical) (hb : Apart behind) :
    Token.read false (skipGap (t.spelling ++ behind)) = some (t, behind) := by
  rw [skipGap_spelling ht hb]
  exact read_spelling ht hb

theorem finds_behindBlanks (h : ∀ t ∈ ts, t.Lexical) :
    ∀ offset glued, Finds (fromOffset offset glued (behindBlanks ts)) ts := by
  induction ts with
  | nil => exact finds_nothing rfl
  | cons t ts ih =>
    rw [List.forall_mem_cons] at h
    exact finds_behind_gap rfl (read_skipGap_spelling h.1 (apart_behindBlanks ts)) (ih h.2)

/-- **Tokens are scanned back** from their spellings with blanks between them. -/
theorem finds_written (h : ∀ t ∈ ts, t.Lexical) : Finds (ofText (written ts).toList) ts := by
  cases ts with
  | nil => exact finds_nothing rfl 0 false
  | cons t ts =>
    rw [List.forall_mem_cons] at h
    rw [toList_written_cons]
    exact finds_of_read 0 (read_skipGap_spelling h.1 (apart_behindBlanks ts))
      (finds_behindBlanks h.2)

end Known

end Scan

end Rpal
