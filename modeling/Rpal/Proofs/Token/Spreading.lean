/-
# Scanning a text with its tabs spread out

Tabs between tokens are a part of the gaps, and so are the blanks that they are spread into.  If no
tab is in a comment or a literal (`tabsApart`), a gap is skipped in the spread text where it is
skipped in the text (`exists_gap`), and the same token is read behind it (`readsAlike_read`).
-/
import Rpal.Proofs.Text.Spreading
import Rpal.Proofs.Token.Literals

namespace Rpal

namespace Text

/-! ## 1. Tabs between tokens -/

/-- Whether no tab is in a comment or a literal of a text that begins at a place.  As for
`literalsFrom`, a backslash takes a line feed with it in a comment, and any character in a
literal. -/
def tabsApart : Place → List Char → Bool
  | _, [] => true
  | .code, '/' :: '/' :: rest => tabsApart .comment rest
  | .code, '\'' :: rest => tabsApart .literal rest
  | .code, _ :: rest => tabsApart .code rest
  | .comment, '\\' :: '\n' :: rest => tabsApart .comment rest
  | .comment, '\n' :: rest => tabsApart .code rest
  | .comment, c :: rest => c != '\t' && tabsApart .comment rest
  | .literal, '\'' :: rest => tabsApart .code rest
  | .literal, '\\' :: c :: rest => c != '\t' && tabsApart .literal rest
  | .literal, c :: rest => c != '\t' && tabsApart .literal rest

variable {c : Char} {cs rest used : List Char}

/-- Away from quotes and comments the next character is code. -/
theorem tabsApart_code (hquote : c ≠ '\'') (hslash : c = '/' → ∀ behind, rest ≠ '/' :: behind) :
    tabsApart .code (c :: rest) = tabsApart .code rest :=
  tabsApart.eq_4 c rest (fun behind hc hrest => hslash hc behind hrest) fun hc => hquote hc

/-- A comment goes on with any character but a line feed, and that is no tab. -/
theorem tabsApart_comment (hfeed : c ≠ '\n') (hback : c = '\\' → ∀ behind, rest ≠ '\n' :: behind) :
    tabsApart .comment (c :: rest) = (c != '\t' && tabsApart .comment rest) :=
  tabsApart.eq_7 c rest (fun behind hc hrest => hback hc behind hrest) fun hc => hfeed hc

/-- So does a literal, up to its quote. -/
theorem tabsApart_literal (hquote : c ≠ '\'') (hback : c ≠ '\\') :
    tabsApart .literal (c :: rest) = (c != '\t' && tabsApart .literal rest) :=
  tabsApart.eq_10 c rest (fun hc => hquote hc) fun _ _ hc _ => hback hc

/-- Code without quotes and slashes does not lead out of the code. -/
theorem tabsApart_append_of_plain (hquote : '\'' ∉ used) (hslash : '/' ∉ used) :
    tabsApart .code (used ++ cs) = tabsApart .code cs := by
  induction used with
  | nil => rfl
  | cons c used ih =>
    rw [List.mem_cons, not_or] at hquote hslash
    rw [List.cons_append, tabsApart_code (Ne.symm hquote.1) fun hc => absurd hc.symm hslash.1,
      ih hquote.2 hslash.2]

end Text

namespace Token

open Text

variable {gap : ℕ → ℕ} {column : ℕ} {c : Char} {cs rest : List Char}

/-! ## 2. Gaps -/

/-- Blanks are skipped, however many a tab leaves. -/
theorem skipGap_blanks (n : ℕ) (cs : List Char) :
    skipGap (List.replicate n ' ' ++ cs) = skipGap cs := by
  induction n with
  | zero => rfl
  | succ n ih =>
    rw [List.replicate_succ, List.cons_append, skipGap_gapChar (by decide), ih]

/-- Nothing is left to skip behind a gap. -/
theorem skipGap_skipGap (cs : List Char) : skipGap (skipGap cs) = skipGap cs := by
  refine (skipGap.mutual_induct (fun cs => skipGap (skipGap cs) = skipGap cs)
    (fun cs => skipGap (skipComment cs) = skipComment cs)
    ?nothing ?opened ?space ?token ?ended ?continued ?feed ?char).1 cs
  case nothing => rfl
  case opened => exact fun rest ih => ih
  case space =>
    intro c rest hcomment hgap ih
    rwa [skipGap.eq_3 c rest hcomment, if_pos hgap]
  case token =>
    intro c rest hcomment hgap
    have hhere : skipGap (c :: rest) = c :: rest := by
      rw [skipGap.eq_3 c rest hcomment, if_neg hgap]
    rw [hhere, hhere]
  case ended => rfl
  case continued => exact fun rest ih => ih
  case feed => exact fun rest _ ih => ih
  case char =>
    intro c rest hcontinued hfeed ih
    rwa [skipComment.eq_3 c rest hcontinued, if_neg hfeed]

/-- Where a gap is skipped in a text, it is skipped in the spread text. -/
def SkipsAlike (gap : ℕ → ℕ) (skip : List Char → List Char) (cs : List Char) : Prop :=
  ∃ front, cs = front ++ skip cs ∧ tabsApart .code (skip cs) ∧
    ∀ column, skip (spread gap column cs) = spread gap (columnAfter gap column front) (skip cs)

/-- Characters in front that both texts skip on their way. -/
theorem SkipsAlike.append {skip skip' : List Char → List Char} {rest : List Char}
    (used : List Char) (h : SkipsAlike gap skip' rest) (hhere : skip (used ++ rest) = skip' rest)
    (hspread : ∀ column, skip (spread gap column (used ++ rest)) =
      skip' (spread gap (columnAfter gap column used) rest)) :
    SkipsAlike gap skip (used ++ rest) := by
  obtain ⟨front, hrest, hcode, hskip⟩ := h
  refine ⟨used ++ front, ?_, ?_, fun column => ?_⟩
  · rw [hhere, List.append_assoc, ← hrest]
  · rwa [hhere]
  · rw [hhere, hspread, hskip, columnAfter_append]

/-- By the recursion of the scanner, which skips white space and comments by turns: what is proved
of a gap is proved of the inside of a comment along with it. -/
theorem skipsAlike_skipGap (hgap : ∀ column, gap column ≠ 0) (cs : List Char) :
    tabsApart .code cs → SkipsAlike gap skipGap cs := by
  refine (skipGap.mutual_induct (fun cs => tabsApart .code cs → SkipsAlike gap skipGap cs)
    (fun cs => tabsApart .comment cs → SkipsAlike gap skipComment cs)
    ?nothing ?opened ?space ?token ?ended ?continued ?feed ?char).1 cs
  case nothing => exact fun _ => ⟨[], rfl, rfl, fun _ => rfl⟩
  case opened =>
    intro rest ih h
    refine (ih h).append ['/', '/'] rfl fun column => ?_
    rw [spread_append, spread_eq_self (by decide)]
    rfl
  case space =>
    intro c rest hcomment hc ih h
    have hplain : c ≠ '\'' ∧ c ≠ '/' := by
      rcases eq_of_isGapChar hc with rfl | rfl | rfl | rfl <;> decide
    rw [tabsApart_code hplain.1 fun hslash => absurd hslash hplain.2] at h
    refine (ih h).append [c] (skipGap_gapChar hc rest) fun column => ?_
    rw [List.singleton_append]
    by_cases htab : c = '\t'
    · subst htab
      rw [spread_tab, skipGap_blanks]
      rfl
    · rw [spread_cons htab, skipGap_gapChar hc]
      rfl
  case token =>
    intro c rest hcomment hc h
    have hhere : skipGap (c :: rest) = c :: rest := by
      rw [skipGap.eq_3 c rest hcomment, if_neg hc]
    have htab : c ≠ '\t' := by
      rintro rfl
      exact hc rfl
    refine ⟨[], ?_, ?_, fun column => ?_⟩
    · rw [hhere, List.nil_append]
    · rwa [hhere]
    · rw [hhere, columnAfter, List.foldl_nil, spread_cons htab, skipGap.eq_3, if_neg hc]
      intro behind hslash
      exact spread_ne_cons hgap (by decide) (fun behind => hcomment behind hslash) behind
  case ended => exact fun _ => ⟨[], rfl, rfl, fun _ => rfl⟩
  case continued =>
    intro rest ih h
    refine (ih h).append ['\\', '\n'] rfl fun column => ?_
    rw [spread_append, spread_eq_self (by decide)]
    rfl
  case feed =>
    intro rest hcontinued ih h
    refine (ih h).append ['\n'] rfl fun column => ?_
    rw [spread_append, spread_eq_self (by decide)]
    rfl
  case char =>
    intro c rest hcontinued hfeed ih h
    rw [tabsApart_comment hfeed fun hback behind => hcontinued behind hback, Bool.and_eq_true,
      bne_iff_ne] at h
    have hhere : skipComment (c :: rest) = skipComment rest := by
      rw [skipComment.eq_3 c rest hcontinued, if_neg hfeed]
    refine (ih h.2).append [c] hhere fun column => ?_
    rw [List.singleton_append, spread_cons h.1, skipComment.eq_3, if_neg hfeed]
    · rfl
    · intro behind hback
      exact spread_ne_cons hgap (by decide) (fun behind => hcontinued behind hback) behind

/-- **A gap and what is behind it**, in a text and in the spread text. -/
theorem exists_gap (hgap : ∀ column, gap column ≠ 0) (h : tabsApart .code cs) :
    ∃ between here, cs = between ++ here ∧ tabsApart .code here ∧ skipGap here = here ∧
      skipGap (between ++ here) = here ∧ ∀ column,
        skipGap (spread gap column between ++ spread gap (columnAfter gap column between) here) =
          spread gap (columnAfter gap column between) here := by
  obtain ⟨between, hcs, hhere, hskip⟩ := skipsAlike_skipGap hgap cs h
  refine ⟨between, skipGap cs, hcs, hhere, skipGap_skipGap cs, by rw [← hcs], fun column => ?_⟩
  rw [← spread_append, ← hcs]
  exact hskip column

/-! ## 3. Single tokens -/

/-- What is read from a text and from the spread text: nothing, or the same, without a tab, with
corresponding texts left. -/
inductive ReadsAlike {α : Type} (gap : ℕ → ℕ) (column : ℕ) (cs : List Char) :
    Option (α × List Char) → Option (α × List Char) → Prop where
  | none : ReadsAlike gap column cs none none
  | some (a : α) (used behind : List Char) (hcs : cs = used ++ behind) (htab : '\t' ∉ used)
      (hcode : tabsApart .code behind) :
      ReadsAlike gap column cs (some (a, behind))
        (some (a, spread gap (columnAfter gap column used) behind))

variable {α β : Type} {r r' : Option (α × List Char)}

/-- What is made of a token is no matter of the text. -/
theorem ReadsAlike.map (f : α → β) (h : ReadsAlike gap column cs r r') :
    ReadsAlike gap column cs (r.map fun (a, behind) => (f a, behind))
      (r'.map fun (a, behind) => (f a, behind)) := by
  cases h with
  | none => exact .none
  | some a used behind hcs htab hcode => exact .some (f a) used behind hcs htab hcode

/-- A character in front of what is read. -/
theorem ReadsAlike.cons (hc : c ≠ '\t') (h : ReadsAlike gap (nextColumn gap column c) cs r r') :
    ReadsAlike gap column (c :: cs) r r' := by
  cases h with
  | none => exact .none
  | some a used behind hcs htab hcode =>
    refine .some a (c :: used) behind (by rw [hcs]; rfl) ?_ hcode
    rw [List.mem_cons, not_or]
    exact ⟨Ne.symm hc, htab⟩

/-- A literal holds no tab, closed or not. -/
theorem readsAlike_readString (h : tabsApart .literal cs) :
    ReadsAlike gap column cs (readString cs) (readString (spread gap column cs)) := by
  fun_induction readString cs generalizing column with
  | case1 => exact .none
  | case2 rest =>
    rw [spread_cons (by decide), spread_cons (by decide), readString, if_pos rfl]
    exact .none
  | case3 c rest hfeed ih =>
    rw [tabsApart, Bool.and_eq_true, bne_iff_ne] at h
    rw [spread_cons (by decide), spread_cons h.1, readString, if_neg hfeed]
    exact .cons (by decide) (.cons h.1 ((ih h.2).map fun raw => '\\' :: c :: raw))
  | case4 rest =>
    rw [spread_cons (by decide), readString_cons (by decide), if_pos rfl]
    exact .some [] ['\''] rest rfl (by decide) h
  | case5 rest hpair =>
    cases rest with
    | nil => exact .none
    | cons d rest => exact absurd rfl (hpair d rest rfl)
  | case6 c rest hpair hquote hback ih =>
    rw [tabsApart_literal hquote hback, Bool.and_eq_true, bne_iff_ne] at h
    rw [spread_cons h.1, readString_cons hback, if_neg hquote]
    exact .cons h.1 ((ih h.2).map (c :: ·))

/-- The symbol of two characters. -/
def pair? : Char → Char → Option Symbol
  | '-', '>' => some .arrow
  | '*', '*' => some .power
  | '>', '=' => some .greaterEqual
  | '<', '=' => some .lessEqual
  | _, _ => none

/-- The symbol of a single character. -/
def single? : Char → Option Symbol
  | '(' => some .lparen
  | ')' => some .rparen
  | ',' => some .comma
  | '.' => some .dot
  | '=' => some .equals
  | '@' => some .at
  | '|' => some .bar
  | '&' => some .ampersand
  | '+' => some .plus
  | '-' => some .minus
  | '*' => some .times
  | '/' => some .divide
  | '>' => some .greater
  | '<' => some .less
  | _ => none

/-- Where the next character makes no pair, the symbol is that of the first one alone. -/
theorem readSymbol_of_single (h : rest.head?.bind (pair? c) = none) :
    readSymbol (c :: rest) = (single? c).map (·, rest) := by
  have hnext : ∀ d behind s, pair? c d = some s → rest ≠ d :: behind := by
    rintro d behind s hs rfl
    rw [List.head?_cons, Option.bind_some, hs] at h
    cases h
  fun_cases single? c with
  | case10 => exact readSymbol.eq_14 rest fun behind => hnext '>' behind _ rfl
  | case11 => exact readSymbol.eq_15 rest fun behind => hnext '*' behind _ rfl
  | case13 => exact readSymbol.eq_17 rest fun behind => hnext '=' behind _ rfl
  | case14 => exact readSymbol.eq_18 rest fun behind => hnext '=' behind _ rfl
  | case15 =>
    unfold readSymbol
    split <;> first | rfl | (rename_i heq; cases heq; contradiction)
  | _ => rfl

/-- The second character of a pair leads neither into a literal nor into a comment. -/
theorem readSymbol_of_pair {s : Symbol} (h : rest.head?.bind (pair? c) = some s) :
    ∃ d behind, rest = d :: behind ∧ d ∉ ['\t', '\'', '/'] ∧
      ∀ behind, readSymbol (c :: d :: behind) = some (s, behind) := by
  cases rest with
  | nil => cases h
  | cons d behind =>
    rw [List.head?_cons, Option.bind_some] at h
    refine ⟨d, behind, rfl, ?_⟩
    unfold pair? at h
    split at h <;> cases h <;> exact ⟨by decide, fun _ => rfl⟩

/-- No symbol has a blank in it, so none is torn apart. -/
theorem pair?_blank (c : Char) : pair? c ' ' = none := by
  unfold pair?
  split <;> first | rfl | contradiction

section Gap

variable (hgap : ∀ column, gap column ≠ 0)

include hgap

/-- A symbol is read alike: its second character is not a blank, be it from a tab or not. -/
theorem readsAlike_readSymbol (column : ℕ) (htab : c ≠ '\t') (hquote : c ≠ '\'')
    (hcomment : ∀ behind, c :: rest ≠ '/' :: '/' :: behind) (h : tabsApart .code (c :: rest)) :
    ReadsAlike gap column (c :: rest) (readSymbol (c :: rest))
      (readSymbol (spread gap column (c :: rest))) := by
  rw [tabsApart_code hquote fun hslash behind hrest => hcomment behind (by rw [hslash, hrest])] at h
  rw [spread_cons htab]
  cases hpair : rest.head?.bind (pair? c) with
  | none =>
    have hspread :
        (spread gap (nextColumn gap column c) rest).head?.bind (pair? c) = none := by
      rw [head?_spread hgap]
      cases rest with
      | nil => rfl
      | cons d behind =>
        by_cases hd : d = '\t'
        · simp [hd, pair?_blank]
        · simpa [hd] using hpair
    rw [readSymbol_of_single hpair, readSymbol_of_single hspread]
    cases single? c with
    | none => exact .none
    | some s => exact .some s [c] rest rfl (by simpa using Ne.symm htab) h
  | some s =>
    obtain ⟨d, behind, rfl, hd, hread⟩ := readSymbol_of_pair hpair
    simp only [List.mem_cons, List.not_mem_nil, or_false, not_or] at hd
    rw [tabsApart_code hd.2.1 fun hslash => absurd hslash hd.2.2] at h
    rw [hread, spread_cons hd.1, hread]
    exact .some s [c, d] behind rfl (by simpa using ⟨Ne.symm htab, Ne.symm hd.1⟩) h

/-- Whether a word is reserved depends on the character behind it, and neither a tab nor a blank is
one that matters. -/
theorem ofWord_spread (glued : Bool) (word behind : List Char) :
    ofWord glued word (spread gap column behind) = ofWord glued word behind := by
  rw [ofWord, ofWord, head?_spread_any hgap (by decide)]

/-- A run of characters other than tabs, blanks, quotes and slashes. -/
theorem readsAlike_takeWhile {p : Char → Bool}
    (hp : p '\t' = false ∧ p ' ' = false ∧ p '\'' = false ∧ p '/' = false)
    (h : tabsApart .code cs) :
    ReadsAlike gap column cs (some (cs.takeWhile p, cs.dropWhile p))
      (some ((spread gap column cs).takeWhile p, (spread gap column cs).dropWhile p)) := by
  obtain ⟨htake, hdrop⟩ := takeWhile_spread hgap hp.1 hp.2.1 column cs
  have hnot : ∀ c, p c = false → c ∉ cs.takeWhile p := by
    intro c hc hmem
    rw [takeWhile_forall p cs c hmem] at hc
    cases hc
  rw [htake, hdrop]
  refine .some _ _ _ List.takeWhile_append_dropWhile.symm (hnot _ hp.1) ?_
  rw [← List.takeWhile_append_dropWhile (p := p) (l := cs),
    tabsApart_append_of_plain (hnot _ hp.2.2.1) (hnot _ hp.2.2.2)] at h
  exact h

/-- **A token is read alike** from a text and from the spread text. -/
theorem readsAlike_read (column : ℕ) (hhere : skipGap cs = cs) (h : tabsApart .code cs)
    (glued : Bool) :
    ReadsAlike gap column cs (read glued cs) (read glued (spread gap column cs)) := by
  cases cs with
  | nil => exact .none
  | cons c rest =>
    have hc : isGapChar c = false := by
      by_contra hc
      rw [Bool.not_eq_false] at hc
      rw [skipGap_gapChar hc] at hhere
      have := (skipGap_suffix rest).length_le
      rw [hhere, List.length_cons] at this
      omega
    have htab : c ≠ '\t' := by
      rintro rfl
      cases hc
    have hcomment := skipGap_ne_comment (c :: rest)
    rw [hhere] at hcomment
    have hrest : c ≠ '\'' → c ≠ '/' → tabsApart .code rest := by
      intro hquote hslash
      rwa [tabsApart_code hquote fun hc => absurd hc hslash] at h
    rw [spread_cons htab, read, read]
    by_cases halpha : c.isAlpha
    · have hcode := hrest (by rintro rfl; cases halpha) (by rintro rfl; cases halpha)
      have hword : ofWord glued
          (c :: (spread gap (nextColumn gap column c) rest).takeWhile isNameChar)
          ((spread gap (nextColumn gap column c) rest).dropWhile isNameChar) =
            ofWord glued (c :: rest.takeWhile isNameChar) (rest.dropWhile isNameChar) := by
        obtain ⟨htake, hdrop⟩ := takeWhile_spread hgap (p := isNameChar) (by decide) (by decide)
          (nextColumn gap column c) rest
        rw [htake, hdrop, ofWord_spread hgap]
      rw [if_pos halpha, if_pos halpha]
      simp only [hword]
      exact ((readsAlike_takeWhile hgap (by decide) hcode).cons htab).map fun _ =>
        ofWord glued (c :: rest.takeWhile isNameChar) (rest.dropWhile isNameChar)
    · rw [if_neg halpha, if_neg halpha]
      by_cases hdigit : Text.isDigit c
      · have hcode := hrest (by rintro rfl; exact absurd hdigit (by decide))
          (by rintro rfl; exact absurd hdigit (by decide))
        rw [if_pos hdigit, if_pos hdigit]
        exact ((readsAlike_takeWhile hgap (p := Text.isDigit) (by decide) hcode).cons htab).map
          fun run => Token.integer (String.ofList (c :: run))
      · rw [if_neg hdigit, if_neg hdigit]
        by_cases hquote : c = '\''
        · subst hquote
          rw [if_pos rfl, if_pos rfl]
          exact ((readsAlike_readString h).cons htab).map fun raw =>
            Token.string (String.ofList raw)
        · rw [if_neg hquote, if_neg hquote, ← spread_cons htab]
          exact (readsAlike_readSymbol hgap column htab hquote hcomment h).map Token.symbol

end Gap

/-! ## 4. Words -/

variable {used behind : List Char} {t : Token} {glued : Bool}

theorem isKeywordChar_of_isNameChar {c : Char} (h : isNameChar c) : isKeywordChar c := by
  rw [isKeywordChar, h, Bool.true_or]

/-- Characters of words lead neither into a literal nor into a comment, and are no tabs. -/
theorem plain_of_isKeywordChar (h : ∀ c ∈ used, isKeywordChar c) :
    '\'' ∉ used ∧ '/' ∉ used ∧ '\t' ∉ used :=
  ⟨fun hmem => absurd (h _ hmem) (by decide), fun hmem => absurd (h _ hmem) (by decide),
    fun hmem => absurd (h _ hmem) (by decide)⟩

/-- A word that is read is shown as it was written, reserved or not. -/
theorem word?_ofWord (word behind : List Char) (start : ℕ) (touched : Bool) :
    Lexeme.word? ⟨ofWord glued word behind, start, touched⟩ = some (String.ofList word) := by
  unfold ofWord
  simp only
  split
  · rfl
  · split
    · rename_i w hw
      exact congrArg some (Keyword.spelling_of_ofSpelling? hw)
    · rfl

/-- The letters of a word are what was read. -/
theorem toList_of_word? {start : ℕ} {touched : Bool} {word : String}
    (hread : ReadAs glued t used behind)
    (hword : Lexeme.word? ⟨t, start, touched⟩ = some word) : word.toList = used := by
  cases hread with
  | word hc hcs hend =>
    rw [word?_ofWord] at hword
    rw [← Option.some.inj hword, String.toList_ofList]
  | integer => cases hword
  | string => cases hword
  | symbol => cases hword

end Token

end Rpal
