/-
# Where errors are reported in texts with tabs

A text is read with its tabs expanded, and an error is reported on the text as it was written.  A
single blank for every tab leaves all places where they are, so it shows where reading fails: at
the same token, if all tabs stand between tokens (`Tree.ofText_blankTabs`).

The report misses this place by the columns that the tabs before it take beyond one each, up to the
end of the text.  So it is right only at the end of the text, or where every tab before it takes a
single column (`Program.parse_blankTabs`):

    1234567<TAB>)       reported at the bracket
    <TAB>)              reported at the end of the text
-/
import Rpal.Program
import Rpal.Proofs.Diagnosis.Excerpt
import Rpal.Proofs.Token.Moving

namespace Rpal

namespace Text

/-! ## 1. Lines and columns -/

variable {cs : List Char}

theorem length_blankTabs (cs : List Char) : (blankTabs cs).length = cs.length :=
  List.length_map _

/-- No tab is left, so nothing is expanded any more. -/
theorem tab_notMem_blankTabs (cs : List Char) : '\t' ∉ blankTabs cs := by
  intro h
  obtain ⟨c, -, hc⟩ := List.mem_map.mp h
  split at hc
  · cases hc
  · contradiction

/-- A property that does not tell a tab from a blank. -/
theorem comp_blank {p : Char → Bool} (hp : p ' ' = p '\t') :
    (p ∘ fun c => if c = '\t' then ' ' else c) = p := by
  funext c
  by_cases hc : c = '\t'
  · simp [hc, hp]
  · simp [hc]

/-- A run of characters ends at the same place, if a tab counts as a blank in it. -/
theorem takeWhile_blankTabs {p : Char → Bool} (hp : p ' ' = p '\t') (cs : List Char) :
    (blankTabs cs).takeWhile p = blankTabs (cs.takeWhile p) := by
  rw [blankTabs, List.takeWhile_map, comp_blank hp]
  rfl

theorem dropWhile_blankTabs {p : Char → Bool} (hp : p ' ' = p '\t') (cs : List Char) :
    (blankTabs cs).dropWhile p = blankTabs (cs.dropWhile p) := by
  rw [blankTabs, List.dropWhile_map, comp_blank hp]
  rfl

theorem take_blankTabs (p : ℕ) (cs : List Char) : (blankTabs cs).take p = blankTabs (cs.take p) :=
  List.map_take.symm

theorem drop_blankTabs (p : ℕ) (cs : List Char) : (blankTabs cs).drop p = blankTabs (cs.drop p) :=
  List.map_drop.symm

/-- Lines are the same: a tab is no line break. -/
theorem lineNumber_blankTabs (p : ℕ) (cs : List Char) :
    lineNumber p (blankTabs cs) = lineNumber p cs := by
  rw [lineNumber_natCast, lineNumber_natCast, take_blankTabs, List.count, blankTabs,
    List.countP_map, comp_blank (by decide)]

/-- Columns are the same, as a tab was one character and a blank is one. -/
theorem columnNumber_blankTabs {p : ℕ} (hp : p ≤ cs.length) :
    columnNumber p (blankTabs cs) = columnNumber p cs := by
  have hreverse : (blankTabs (cs.take p)).reverse = blankTabs (cs.take p).reverse :=
    List.map_reverse.symm
  rw [columnNumber_natCast hp, columnNumber_natCast (by rwa [length_blankTabs]), lineBefore,
    lineBefore, take_blankTabs, hreverse, takeWhile_blankTabs (by decide), List.length_reverse,
    List.length_reverse, length_blankTabs]

end Text

namespace Diagnosis

open Text Token

/-! ## 2. The token found -/

variable {gap : ℕ → ℕ} {column : ℕ} {c : Char} {cs rest : List Char}

section Gap

variable (hgap : ∀ column, gap column ≠ 0)

/-- Away from a backslash the inside of a literal goes on to the next quote. -/
theorem stringRun_cons (hback : c ≠ '\\') (rest : List Char) :
    stringRun (c :: rest) = if c = '\'' then [] else c :: stringRun rest := by
  rw [stringRun.eq_3 c rest fun _ _ h => absurd h hback]
  simp [hback]

/-- The inside of a literal holds no tab, closed or not. -/
theorem stringRun_spread (gap : ℕ → ℕ) (column : ℕ) (h : tabsApart .literal cs) :
    ∃ behind column', cs = stringRun cs ++ behind ∧
      spread gap column cs = stringRun cs ++ spread gap column' behind ∧
        stringRun (spread gap column cs) = stringRun cs := by
  fun_induction stringRun cs generalizing column with
  | case1 => exact ⟨[], column, rfl, rfl, rfl⟩
  | case2 rest =>
    refine ⟨'\\' :: '\n' :: rest, column, rfl, rfl, ?_⟩
    rw [spread_cons (by decide), spread_cons (by decide), stringRun, if_pos rfl]
  | case3 c rest hfeed ih =>
    rw [tabsApart, Bool.and_eq_true, bne_iff_ne] at h
    obtain ⟨behind, column', hrest, hspread, hrun⟩ :=
      ih (nextColumn gap (nextColumn gap column '\\') c) h.2
    refine ⟨behind, column', ?_, ?_, ?_⟩
    · rw [List.cons_append, List.cons_append, ← hrest]
    · rw [spread_cons (by decide), spread_cons h.1, hspread]
      rfl
    · rw [spread_cons (by decide), spread_cons h.1, stringRun, if_neg hfeed, hrun]
  | case4 c rest hpair hstop =>
    refine ⟨c :: rest, column, rfl, rfl, ?_⟩
    rw [Bool.or_eq_true, decide_eq_true_eq, decide_eq_true_eq] at hstop
    rcases hstop with rfl | rfl
    · rw [spread_cons (by decide), stringRun_cons (by decide), if_pos rfl]
    · cases rest with
      | nil => rfl
      | cons d rest => exact absurd rfl (hpair d rest rfl)
  | case5 c rest hpair hstop ih =>
    rw [Bool.or_eq_true, decide_eq_true_eq, decide_eq_true_eq, not_or] at hstop
    rw [tabsApart_literal hstop.1 hstop.2, Bool.and_eq_true, bne_iff_ne] at h
    obtain ⟨behind, column', hrest, hspread, hrun⟩ := ih (nextColumn gap column c) h.2
    refine ⟨behind, column', ?_, ?_, ?_⟩
    · rw [List.cons_append, ← hrest]
    · rw [spread_cons h.1, hspread]
      rfl
    · rw [spread_cons h.1, stringRun_cons hstop.2, if_neg hstop.1, hrun]

include hgap

/-- The next character is the same, unless it is a blank or a tab. -/
theorem head?_spread_eq_some_iff (hblank : c ≠ ' ') (htab : c ≠ '\t') :
    (spread gap column cs).head? = some c ↔ cs.head? = some c := by
  rw [head?_spread hgap]
  cases cs with
  | nil => rfl
  | cons d rest =>
    by_cases hd : d = '\t'
    · simp [hd, Ne.symm hblank, Ne.symm htab]
    · simp [hd]

/-- Whether a literal is closed is the same. -/
theorem openString_spread (h : tabsApart .literal cs) :
    openString (spread gap column cs) = openString cs := by
  obtain ⟨behind, column', hcs, hspread, hrun⟩ := stringRun_spread gap column h
  simp only [openString, hrun]
  generalize stringRun cs = run at hcs hspread ⊢
  rw [hspread, hcs, List.drop_left, List.drop_left]
  simp only [head?_spread_eq_some_iff hgap (c := '\'') (by decide) (by decide)]

/-- The token that stands first has the same name. -/
theorem nameToken_spread (hblank : ∀ c ∈ cs.head?, c ≠ '\t') (h : tabsApart .code cs) :
    nameToken (spread gap column cs) = nameToken cs := by
  cases cs with
  | nil => rfl
  | cons c rest =>
    have htab : c ≠ '\t' := hblank c rfl
    rw [spread_cons htab, nameToken, nameToken]
    simp only [head?_spread_eq_some_iff hgap (c := '/') (by decide) (by decide)]
    refine ite_congr rfl (fun _ => rfl) fun hcomment => ?_
    refine ite_congr rfl (fun hquote => ?_) fun hquote => ?_
    · subst hquote
      rw [openString_spread hgap h]
    refine ite_congr rfl (fun _ => ?_) fun _ => ?_
    · rw [(takeWhile_spread hgap (p := Text.isDigit) (by decide) (by decide) _ _).1]
    refine ite_congr rfl (fun _ => ?_) fun _ => ?_
    · rw [(takeWhile_spread hgap (p := isNameChar) (by decide) (by decide) _ _).1]
    have hread := readsAlike_readSymbol hgap column htab hquote (fun behind hcs => ?_) h
    · rw [spread_cons htab] at hread
      generalize readSymbol (c :: rest) = r,
        readSymbol (c :: spread gap (nextColumn gap column c) rest) = r' at hread ⊢
      cases hread with
      | none => rfl
      | some => rfl
    · obtain ⟨rfl, rfl⟩ := List.cons.inj hcs
      exact hcomment rfl

end Gap

/-- Behind white space there is code as well. -/
theorem tabsApart_trimStart (h : tabsApart .code cs) : tabsApart .code (trimStart cs) := by
  induction cs with
  | nil => exact h
  | cons c cs ih =>
    rw [trimStart, List.dropWhile_cons]
    split
    · rename_i hc
      refine ih ?_
      rwa [tabsApart_code (by rintro rfl; exact absurd hc (by decide))
        (by rintro rfl; exact absurd hc (by decide))] at h
    · exact h

/-- An offset behind the text is cut off at its end. -/
theorem parseError_min (filename source message : String) (offset : ℕ) :
    parseError filename source message offset =
      parseError filename source message (min offset source.toList.length : ℕ) := by
  have hlocation : min (offset : ℤ) source.toList.length =
      min ((min offset source.toList.length : ℕ) : ℤ) source.toList.length := by
    omega
  rw [parseError, parseError, hlocation]

/-- **The token found** is the same with blanks for tabs. -/
theorem tokenAt_blankTabs {p : ℕ} (h : tabsApart .code (cs.drop p)) :
    tokenAt (blankTabs cs) p = tokenAt cs p := by
  have hcode := tabsApart_trimStart h
  rw [tokenAt, tokenAt, after_natCast, after_natCast, drop_blankTabs, trimStart,
    dropWhile_blankTabs (by decide), blankTabs_eq_spread 0]
  refine nameToken_spread (fun _ => Nat.one_ne_zero) (fun c hc => ?_) hcode
  rintro rfl
  have := List.head?_dropWhile_not isBlank (cs.drop p)
  rw [hc] at this
  exact absurd this (by decide)

end Diagnosis

/-! ## 3. Where reading fails -/

section Reading

open Text

variable {cs : List Char}

/-- **Reading fails at the same place** with blanks for tabs: in the text with blanks at an offset
of the text itself, and in the text with expanded tabs where that place is then. -/
theorem Tree.ofText_blankTabs (h : tabsApart .code cs) :
    (∃ t, ofText cs = .ok t ∧ ofText (blankTabs cs) = .ok t) ∨
      ∃ p, p ≤ cs.length ∧ tabsApart .code (cs.drop p) ∧ ofText (blankTabs cs) = .error p ∧
        ofText cs = .error (expandTabs (cs.take p)).length := by
  have hblank : ofText (blankTabs cs) = ofScan (Scan.ofText (spread (fun _ => 1) 0 cs)) := by
    rw [ofText, expandTabs_eq_self (tab_notMem_blankTabs cs), blankTabs_eq_spread 0]
  have hexpand : ofText cs =
      ofScan (Scan.ofText (spread (fun column => tabWidth - column % tabWidth) 0 cs)) := by
    rw [ofText, expandTabs, expandTabsFrom_eq_spread]
  rcases ofScan_follows Scan.maxClosed_moved (Scan.follows_spread (fun _ => Nat.one_ne_zero) h) with
    ⟨t, ht, ht'⟩ | ⟨i, p, hi, hp, hmoved⟩
  · rcases ofScan_follows Scan.maxClosed_moved (Scan.follows_spread gap_ne_zero h) with
      ⟨u, hu, hu'⟩ | ⟨_, _, hi, -⟩
    · obtain rfl := Except.ok.inj (ht.symm.trans hu)
      exact .inl ⟨t, hexpand.trans hu', hblank.trans ht'⟩
    · cases ht.symm.trans hi
  · rcases ofScan_follows Scan.maxClosed_moved (Scan.follows_spread gap_ne_zero h) with
      ⟨_, hu, -⟩ | ⟨i', j, hi', hj, hmoved'⟩
    · cases hi.symm.trans hu
    · obtain rfl := Except.error.inj (hi.symm.trans hi')
      have hplace : p = i := by
        rw [hmoved.moved, ← blankTabs_eq_spread, length_blankTabs,
          List.length_take_of_le hmoved.le_length]
      refine .inr ⟨i, hmoved.le_length, hmoved.code, ?_, ?_⟩
      · rw [hblank, hp, hplace]
      · rw [hexpand, hj, hmoved'.moved, expandTabs, expandTabsFrom_eq_spread]

/-- Where reading fails can be decided, since it does not depend on a tree. -/
theorem Tree.ofText_eq_error {p : ℕ} (h : (ofText cs).map (fun _ => ()) = .error p) :
    ofText cs = .error p := by
  cases hread : ofText cs with
  | error q =>
    rw [hread] at h
    exact congrArg Except.error (Except.error.inj h)
  | ok t =>
    rw [hread] at h
    cases h

end Reading

namespace Program

open Text

/-! ## 4. Reports -/

/-- A source text with a single blank for every tab. -/
def blankTabs (source : String) : String := String.ofList (Text.blankTabs source.toList)

/-- **Where an error is reported** in a text whose tabs stand between tokens.  The text with blanks
for tabs tells the place `p` where reading fails; the report has it if it is the end of the text,
or if every tab before it takes a single column. -/
theorem parse_blankTabs {filename source : String} {e : ParseError}
    (htabs : tabsApart .code source.toList) (h : parse filename source = .error e) :
    ∃ (e' : ParseError) (p : ℕ), parse filename (blankTabs source) = .error e' ∧
      p ≤ source.toList.length ∧ e'.location = p ∧
      e.location =
        (min (expandTabs (source.toList.take p)).length source.toList.length : ℕ) ∧
      (e.location = e'.location ∧ e.line = e'.line ∧ e.column = e'.column ∧ e.got = e'.got ↔
        p = source.toList.length ∨ (expandTabs (source.toList.take p)).length = p) := by
  rcases Tree.ofText_blankTabs htabs with ⟨t, ht, -⟩ | ⟨p, hp, hcode, hblank, hexpand⟩
  · rw [parse, parseWith, ht] at h
    cases h
  rw [parse, parseWith, hexpand] at h
  obtain rfl := Except.error.inj h
  have hlist : (blankTabs source).toList = Text.blankTabs source.toList := String.toList_ofList
  have hparse : parse filename (blankTabs source) =
      .error (Diagnosis.parseError filename (blankTabs source) "" p) := by
    rw [parse, parseWith, hlist, hblank]
  -- no tab takes less than one column
  have hgrows : p ≤ (expandTabs (source.toList.take p)).length := by
    have := length_le_length_spread gap_ne_zero 0 (source.toList.take p)
    rwa [← expandTabsFrom_eq_spread, List.length_take_of_le hp] at this
  have hp' : p ≤ (blankTabs source).toList.length := by rwa [hlist, length_blankTabs]
  obtain ⟨hlocation', hline', hcolumn', hgot'⟩ := Diagnosis.parseError_of_le filename "" hp'
  obtain ⟨hlocation, hline, hcolumn, hgot⟩ := Diagnosis.parseError_of_le filename ""
    (Nat.min_le_right (expandTabs (source.toList.take p)).length source.toList.length)
  rw [Diagnosis.parseError_min]
  refine ⟨_, p, hparse, hp, hlocation', hlocation, ?_⟩
  rw [hlocation, hline, hcolumn, hgot, hlocation', hline', hcolumn', hgot', hlist,
    lineNumber_blankTabs, columnNumber_blankTabs hp, Diagnosis.tokenAt_blankTabs hcode]
  generalize (expandTabs (source.toList.take p)).length = q at hgrows ⊢
  constructor
  · rintro ⟨hsame, -⟩
    omega
  · intro hsame
    have hplace : min q source.toList.length = p := by omega
    rw [hplace]
    exact ⟨rfl, rfl, rfl, rfl⟩

/-- A tab in the last column before a tab stop. -/
theorem parse_blankTabs_narrow :
    let e := Diagnosis.parseError unnamed "1234567\t)" "" 8
    tabsApart .code "1234567\t)".toList ∧ parse unnamed "1234567\t)" = .error e ∧
      ∃ e', parse unnamed (blankTabs "1234567\t)") = .error e' ∧ e.location = e'.location ∧
        e.line = e'.line ∧ e.column = e'.column ∧ e.got = e'.got := by
  intro e
  have htabs : tabsApart .code "1234567\t)".toList := by decide
  have hparse : parse unnamed "1234567\t)" = .error e := by
    have hplace : Tree.ofText "1234567\t)".toList = .error 8 :=
      Tree.ofText_eq_error (by decide +kernel)
    rw [parse, parseWith, hplace]
    rfl
  obtain ⟨e', p, hparse', hp, -, hlocation, hsame⟩ := parse_blankTabs htabs hparse
  have hall : ∀ p ≤ 9, min (expandTabs ("1234567\t)".toList.take p)).length 9 = 8 → p = 8 := by
    decide
  obtain rfl := hall p hp (Int.ofNat_inj.mp hlocation).symm
  exact ⟨htabs, hparse, e', hparse', hsame.mpr (.inr (by decide))⟩

/-- Some tabs move the error. -/
theorem not_parse_blankTabs : ¬ ∀ (filename source : String) (e : ParseError),
    tabsApart .code source.toList → parse filename source = .error e →
      ∃ e', parse filename (blankTabs source) = .error e' ∧ e.location = e'.location ∧
        e.line = e'.line ∧ e.column = e'.column ∧ e.got = e'.got := by
  intro h
  have hplace : Tree.ofText "\t)".toList = .error 8 := Tree.ofText_eq_error (by decide +kernel)
  have hplace' : Tree.ofText (blankTabs "\t)").toList = .error 1 :=
    Tree.ofText_eq_error (by decide +kernel)
  obtain ⟨e', hparse', hlocation, -⟩ := h unnamed "\t)"
    (Diagnosis.parseError unnamed "\t)" "" 8) (by decide) (by rw [parse, parseWith, hplace]; rfl)
  rw [parse, parseWith, hplace'] at hparse'
  obtain rfl := Except.error.inj hparse'
  exact absurd hlocation (by decide)

end Program

end Rpal
