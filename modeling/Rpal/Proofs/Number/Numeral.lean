/-
# Numerals

A numeral is the text of an integer value: a minus sign or none, and one or more decimal digits
of any script, leading zeros included.  Both ways between numerals and integers have the limit of
`digitLimit` digits and no other:

* `IsNumeral.read`: a numeral is read unless it has too many digits;
* `isNumeral_integerText`: what is written is a numeral;
* `natAbs_lt_of_readInteger`: what was read is small enough to be written again.
-/
import Mathlib.Algebra.Group.Nat.Defs
import Rpal.Number.Decimal
import Rpal.Proofs.Token.Spelling

namespace Rpal.Number

/-- The digits of a numeral. -/
def numeralDigits (text : String) : List Char :=
  match text.toList with
  | '-' :: digits => digits
  | digits => digits

/-- A minus sign or none, and one or more digits. -/
def IsNumeral (text : String) : Prop :=
  numeralDigits text ≠ [] ∧ ∀ c ∈ numeralDigits text, Text.isDigit c

instance (text : String) : Decidable (IsNumeral text) :=
  decidable_of_iff (numeralDigits text ≠ [] ∧ (numeralDigits text).all Text.isDigit)
    (and_congr_right fun _ => List.all_eq_true)

/-! ## 1. Digits -/

/-- A digit is one of the ten characters of a script. -/
theorem exists_first_of_isDigit {c : Char} (h : Text.isDigit c) :
    ∃ first ∈ Text.digitZeros, first ≤ c.toNat ∧ c.toNat < first + 10 := by
  obtain ⟨d, hd⟩ := Option.isSome_iff_exists.mp h
  obtain ⟨first, hfind, -⟩ := Option.map_eq_some_iff.mp hd
  have hrange := List.find?_some hfind
  rw [Bool.and_eq_true, decide_eq_true_iff, decide_eq_true_iff] at hrange
  exact ⟨first, List.mem_of_find?_eq_some hfind, hrange⟩

theorem exists_range_of_inRanges {ranges : List (Nat × Nat)} {n : Nat}
    (h : Text.inRanges ranges n = true) : ∃ r ∈ ranges, r.1 ≤ n ∧ n ≤ r.2 := by
  induction ranges with
  | nil => cases h
  | cons r rest ih =>
    simp only [Text.inRanges, Bool.and_eq_true, decide_eq_true_eq, Bool.or_eq_true] at h
    obtain ⟨hfirst, hlast | hrest⟩ := h
    · exact ⟨r, List.mem_cons_self, hfirst, hlast⟩
    · obtain ⟨r', hr', hin⟩ := ih hrest
      exact ⟨r', List.mem_cons_of_mem _ hr', hin⟩

/-- **No digit is white space**, in any script. -/
theorem isBlank_of_isDigit {c : Char} (h : Text.isDigit c) : Text.isBlank c = false := by
  have hapart : ∀ first ∈ Text.digitZeros, ∀ r ∈ Text.blankRanges,
      first + 10 ≤ r.1 ∨ r.2 < first := by
    decide
  rw [← Bool.not_eq_true]
  intro hblank
  obtain ⟨first, hzero, hlow, hhigh⟩ := exists_first_of_isDigit h
  obtain ⟨r, hr, hfirst, hlast⟩ := exists_range_of_inRanges hblank
  rcases hapart first hzero r hr with hbehind | hbefore
  · omega
  · omega

/-- A digit is none of the signs that a numeral may have. -/
theorem ne_of_isDigit {c d : Char} (h : Text.isDigit c) (hd : Text.isDigit d = false) : c ≠ d := by
  rintro rfl
  rw [h] at hd
  cases hd

/-! ## 2. Reading -/

/-- Nothing is trimmed off a text without white space. -/
theorem trimmed_eq_self {p : Char → Bool} {cs : List Char} (h : ∀ c ∈ cs, p c = false) :
    ((cs.dropWhile p).reverse.dropWhile p).reverse = cs := by
  have hdrop : ∀ ds : List Char, (∀ c ∈ ds, p c = false) → ds.dropWhile p = ds := by
    intro ds hds
    cases ds with
    | nil => rfl
    | cons d ds =>
      exact List.dropWhile_cons_of_neg (Bool.eq_false_iff.mp (hds d List.mem_cons_self))
  rw [hdrop cs h, hdrop cs.reverse fun c hc => h c (List.mem_reverse.mp hc), List.reverse_reverse]

/-- What a digit is worth. -/
def digitWorth (c : Char) : Nat := (Text.digitValue? c).getD 0

/-- Digits without anything between them are read one by one. -/
theorem digitValues?_of_forall {cs : List Char} (hne : cs ≠ []) (h : ∀ c ∈ cs, Text.isDigit c) :
    digitValues? cs = some (cs.map digitWorth) := by
  induction cs with
  | nil => exact absurd rfl hne
  | cons c rest ih =>
    rw [List.forall_mem_cons] at h
    obtain ⟨d, hd⟩ := Option.isSome_iff_exists.mp h.1
    have hc : Text.digitValue? c = some (digitWorth c) := by rw [digitWorth, hd]; rfl
    cases rest with
    | nil => rw [digitValues?, hc]; rfl
    | cons c' rest =>
      have hc' : c' ≠ '_' := ne_of_isDigit (h.2 c' List.mem_cons_self) (by decide)
      rw [digitValues?, hc, ih (List.cons_ne_nil _ _) h.2]
      · rfl
      · simp
      · simp [hc']

/-- Digits are read by their worth, if they are not too many. -/
theorem readNatural_of_forall {cs : List Char} (hne : cs ≠ []) (h : ∀ c ∈ cs, Text.isDigit c) :
    readNatural cs = if cs.length ≤ digitLimit then .ok (ofDigitValues (cs.map digitWorth))
      else .error .tooManyDigits := by
  simp only [readNatural, digitValues?_of_forall hne h, List.length_map]

/-- **A numeral is read by its sign and its digits.** -/
theorem IsNumeral.readInteger_eq {text : String} (h : IsNumeral text) :
    readInteger text = (readNatural (numeralDigits text)).map fun n =>
      if text.toList.head? = some '-' then -(n : Int) else n := by
  have hblank : ∀ d : Char, Text.isDigit d → isNumberBlank d = false := fun d hd => by
    rw [isNumberBlank, isBlank_of_isDigit hd, Bool.false_and]
  by_cases hminus : ∃ rest, text.toList = '-' :: rest
  · obtain ⟨rest, htext⟩ := hminus
    have hdigits : numeralDigits text = rest := by
      rw [numeralDigits, htext]
      rfl
    have hall : ∀ d ∈ '-' :: rest, isNumberBlank d = false :=
      List.forall_mem_cons.mpr ⟨by decide, fun d hd => hblank d (h.2 d (hdigits ▸ hd))⟩
    rw [readInteger, htext, trimmed_eq_self hall, hdigits]
    rfl
  · have hdigits : numeralDigits text = text.toList := by
      unfold numeralDigits
      split
      · rename_i rest htext
        exact absurd ⟨rest, htext⟩ hminus
      · rfl
    have hdigit : ∀ d ∈ text.toList, Text.isDigit d := hdigits ▸ h.2
    have hhead : text.toList.head? ≠ some '-' := fun hhead =>
      hminus (List.head?_eq_some_iff.mp hhead)
    rw [readInteger, trimmed_eq_self fun d hd => hblank d (hdigit d hd), hdigits]
    simp only [hhead, if_false]
    split
    · rename_i rest htext
      exact absurd ⟨rest, htext⟩ hminus
    · rename_i rest htext
      have hplus := hdigit '+' (htext ▸ List.mem_cons_self)
      exact absurd hplus (by decide)
    · rfl

/-- **A numeral is read**, unless it has too many digits. -/
theorem IsNumeral.read {text : String} (h : IsNumeral text) :
    (∃ n, readInteger text = .ok n) ∨
      readInteger text = .error .tooManyDigits ∧ digitLimit < (numeralDigits text).length := by
  rw [h.readInteger_eq, readNatural_of_forall h.1 h.2]
  by_cases hlimit : (numeralDigits text).length ≤ digitLimit
  · rw [if_pos hlimit]
    exact .inl ⟨_, rfl⟩
  · rw [if_neg hlimit]
    exact .inr ⟨rfl, Nat.lt_of_not_le hlimit⟩

/-! ## 3. Sizes -/

/-- A digit is worth less than ten. -/
theorem lt_ten_of_mem_digitValues? {cs : List Char} {ds : List Nat}
    (h : digitValues? cs = some ds) : ∀ d ∈ ds, d < 10 := by
  fun_induction digitValues? cs generalizing ds with
  | case1 => cases h
  | case2 c =>
    obtain ⟨d, hd, rfl⟩ := Option.map_eq_some_iff.mp h
    exact List.forall_mem_singleton.mpr (Text.digitValue?_lt hd)
  | case3 c rest ih =>
    obtain ⟨d, hd, hrest⟩ := Option.bind_eq_some_iff.mp h
    obtain ⟨ds', hds', heq⟩ := Option.bind_eq_some_iff.mp hrest
    cases heq
    exact List.forall_mem_cons.mpr ⟨Text.digitValue?_lt hd, ih hds'⟩
  | case4 c rest _ _ ih =>
    obtain ⟨d, hd, hrest⟩ := Option.bind_eq_some_iff.mp h
    obtain ⟨ds', hds', heq⟩ := Option.bind_eq_some_iff.mp hrest
    cases heq
    exact List.forall_mem_cons.mpr ⟨Text.digitValue?_lt hd, ih hds'⟩

/-- A number is less than the power of ten that its number of digits tells. -/
theorem ofDigitValues_lt {ds : List Nat} (h : ∀ d ∈ ds, d < 10) :
    ofDigitValues ds < 10 ^ ds.length := by
  -- from the left, with what has been read so far as the invariant
  have hfold : ∀ n k : Nat, n < 10 ^ k →
      ds.foldl (fun n d => 10 * n + d) n < 10 ^ (k + ds.length) := by
    induction ds with
    | nil => exact fun n k hn => hn
    | cons d ds ih =>
      intro n k hn
      rw [List.forall_mem_cons] at h
      have hnext : 10 * n + d < 10 ^ (k + 1) := by
        rw [Nat.pow_succ]
        omega
      rw [List.foldl_cons, List.length_cons, Nat.add_comm ds.length 1, ← Nat.add_assoc]
      exact ih h.2 _ _ hnext
  have hstart := hfold 0 0 Nat.one_pos
  rwa [Nat.zero_add] at hstart

theorem lt_of_readNatural {cs : List Char} {n : Nat} (h : readNatural cs = .ok n) :
    n < 10 ^ digitLimit := by
  unfold readNatural at h
  split at h
  · cases h
  · rename_i ds hds
    split at h
    · rename_i hlimit
      cases h
      refine Nat.lt_of_lt_of_le (ofDigitValues_lt (lt_ten_of_mem_digitValues? hds)) ?_
      exact Nat.pow_le_pow_right (by decide) hlimit
    · cases h

/-- **What was read can be written.** -/
theorem natAbs_lt_of_readInteger {text : String} {n : Int} (h : readInteger text = .ok n) :
    n.natAbs < 10 ^ digitLimit := by
  have hmap : ∀ (cs : List Char) (f : Int → Int), (∀ k, (f k).natAbs = k.natAbs) →
      (readNatural cs >>= fun n => pure (n : Int)).map f = .ok n → n.natAbs < 10 ^ digitLimit := by
    intro cs f hf hread
    cases hk : readNatural cs with
    | error e =>
      rw [hk] at hread
      cases hread
    | ok k =>
      rw [hk] at hread
      cases hread
      rw [hf]
      exact lt_of_readNatural hk
  unfold readInteger at h
  simp only at h
  split at h
  · exact hmap _ _ (fun k => k.natAbs_neg) h
  · exact hmap _ _ (fun k => rfl) h
  · exact hmap _ _ (fun k => rfl) h

/-! ## 4. Writing -/

theorem isDigit_of_mem_toDigits {n : Nat} : ∀ c ∈ Nat.toDigits 10 n, Text.isDigit c := by
  intro c hc
  have hdigit : c.isDigit = true := Nat.isDigit_of_mem_toDigits (by decide) (by decide) hc
  rw [Text.isDigit, Text.digitValue?_of_isDigit hdigit]
  rfl

/-- A text of digits alone. -/
theorem isNumeral_of_digits {text : String} (hne : text.toList ≠ [])
    (h : ∀ c ∈ text.toList, Text.isDigit c) : IsNumeral text := by
  have hdigits : numeralDigits text = text.toList := by
    unfold numeralDigits
    split
    · rename_i digits htext
      have hminus := h '-' (htext ▸ List.mem_cons_self)
      exact absurd hminus (by decide)
    · rfl
  rw [IsNumeral, hdigits]
  exact ⟨hne, h⟩

/-- What is written are the digits, behind a minus sign if the integer is negative. -/
theorem toList_integerText (n : Int) : (integerText n).toList =
    if n < 0 then '-' :: Nat.toDigits 10 n.natAbs else Nat.toDigits 10 n.natAbs := by
  have hlist : (toString n.natAbs).toList = Nat.toDigits 10 n.natAbs := Nat.toList_repr
  unfold integerText
  split
  · rw [String.toList_append, hlist]
    rfl
  · exact hlist

theorem toDigits_ne_minus (n : Nat) (rest : List Char) : Nat.toDigits 10 n ≠ '-' :: rest := by
  intro h
  have hminus := isDigit_of_mem_toDigits '-' (h ▸ List.mem_cons_self)
  exact absurd hminus (by decide)

/-- The digits that are written are those of the absolute value. -/
theorem numeralDigits_integerText (n : Int) :
    numeralDigits (integerText n) = Nat.toDigits 10 n.natAbs := by
  rw [numeralDigits, toList_integerText]
  by_cases h : n < 0
  · rw [if_pos h]
    rfl
  · rw [if_neg h]
    split
    · rename_i rest heq
      exact absurd heq (toDigits_ne_minus _ rest)
    · rfl

theorem head?_integerText_iff (n : Int) : (integerText n).toList.head? = some '-' ↔ n < 0 := by
  rw [toList_integerText]
  by_cases h : n < 0
  · rw [if_pos h]
    exact iff_of_true rfl h
  · rw [if_neg h]
    refine iff_of_false (fun hhead => ?_) h
    obtain ⟨rest, heq⟩ := List.head?_eq_some_iff.mp hhead
    exact toDigits_ne_minus _ rest heq

/-- **What is written is a numeral.** -/
theorem isNumeral_integerText (n : Int) : IsNumeral (integerText n) := by
  rw [IsNumeral, numeralDigits_integerText]
  exact ⟨Nat.toDigits_ne_nil, isDigit_of_mem_toDigits⟩

end Rpal.Number
