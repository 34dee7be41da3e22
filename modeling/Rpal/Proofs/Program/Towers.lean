/-
# Programs whose standard form is higher

The function of `k + 1` arguments over a sum of `n + 1` ones,

    fn x .. x . 1 + .. + 1

is one level higher than the sum, for its arguments stand side by side.  In its standard form they
stand one below the other, so that this is `k + 1` levels higher than the sum.  A stack with room
for the tree need not have room for its standard form, however large it is.

The program is read from its text (`parse_tower`), its standard form is found
(`standardize_tower`), and it is run (`evaluate_tower`): the value is a function, after one step.
-/
import Rpal.Proofs.Control.Decoding
import Rpal.Proofs.Grammar.Rendering

namespace Rpal

/-! ## 1. The text as bytes -/

namespace Text

/-- The characters of ASCII as bytes. -/
def asciiBytes (cs : List Char) : List UInt8 := cs.map fun c => UInt8.ofNat c.toNat

/-- By induction on the characters, from any position and behind any text. -/
theorem decodeFrom_asciiBytes {cs : List Char} (h : ∀ c ∈ cs, c.toNat < 0x80) (position : Nat)
    (acc : List Char) : decodeFrom position acc (asciiBytes cs) = .ok (acc.reverse ++ cs) := by
  induction cs generalizing position acc with
  | nil => rw [asciiBytes, List.map_nil, decodeFrom, List.append_nil]
  | cons c cs ih =>
    rw [List.forall_mem_cons] at h
    have hbyte : (UInt8.ofNat c.toNat).toNat = c.toNat := by
      rw [UInt8.toNat_ofNat']
      omega
    have hlead : lead? (UInt8.ofNat c.toNat) = some ⟨c.toNat, 0, 0x80, 0xBF⟩ := by
      simp only [lead?, hbyte, h.1, if_true]
    rw [asciiBytes, List.map_cons, ← asciiBytes, decodeFrom, hlead]
    simp only [readFollowing, Char.ofNat_toNat]
    rw [ih h.2, List.reverse_cons, List.append_assoc, List.singleton_append]

/-- A text of ASCII is read as it was written. -/
theorem decodeUtf8_asciiBytes {cs : List Char} (h : ∀ c ∈ cs, c.toNat < 0x80) :
    decodeUtf8 (asciiBytes cs) = .ok cs :=
  decodeFrom_asciiBytes h 0 []

/-- A text without carriage returns keeps its line ends. -/
theorem unifyNewlines_eq_self {cs : List Char} (h : '\r' ∉ cs) : unifyNewlines cs = cs := by
  fun_induction unifyNewlines cs with
  | case1 => rfl
  | case2 rest ih => simp at h
  | case3 c rest hc ih =>
    rw [List.mem_cons, not_or] at h
    rw [ih h.2, if_neg (Ne.symm h.1)]

end Text

/-- What holds of the blank and of the characters of all spellings holds of a text. -/
theorem Token.forall_written {P : Char → Prop} {ts : List Token} (hblank : P ' ')
    (h : ∀ t ∈ ts, ∀ c ∈ t.spelling, P c) : ∀ c ∈ (written ts).toList, P c := by
  cases ts with
  | nil => exact List.forall_mem_nil _
  | cons t ts =>
    rw [List.forall_mem_cons] at h
    intro c hc
    rw [toList_written_cons, List.mem_append, behindBlanks, List.mem_flatMap] at hc
    rcases hc with hc | ⟨u, hu, hc⟩
    · exact h.1 c hc
    · rcases List.mem_cons.mp hc with rfl | hc
      · exact hblank
      · exact h.2 u hu c hc

namespace Program

open Grammar Rpal.Tree

/-! ## 2. The program -/

/-- The sum of `n + 1` ones. -/
def ones : Nat → Tree
  | 0 => .leaf .integer "1"
  | n + 1 => .branch .plus [ones n, .leaf .integer "1"]

/-- The tokens of the sum. -/
def onesTokens : Nat → List Token
  | 0 => [.integer "1"]
  | n + 1 => onesTokens n ++ [.symbol .plus, .integer "1"]

/-- An argument. -/
def argument : Tree := .leaf .identifier "x"

/-- The function of `k + 1` arguments over the sum. -/
def tower (k n : Nat) : Tree := .branch .lambda (List.replicate (k + 1) argument ++ [ones n])

/-- The tokens of the function. -/
def towerTokens (k n : Nat) : List Token :=
  .keyword .fnWord :: (List.replicate (k + 1) (.identifier "x") ++ .symbol .dot :: onesTokens n)

/-- The standard form of the function. -/
def standardTower (k n : Nat) : Tree := lambdaChain (List.replicate (k + 1) argument) (ones n)

/-- The text of the function as a file. -/
def towerBytes (k n : Nat) : List UInt8 :=
  Text.asciiBytes (Token.written (towerTokens k n)).toList

/-! ## 3. Reading -/

/-- The sum nests to the left, as its tokens are appended. -/
theorem derives_ones (n : Nat) : Derives (.chain .sum) (onesTokens n) (ones n) := by
  have hone : Derives .operand [.integer "1"] (.leaf .integer "1") := derives_atom rfl
  induction n with
  | zero => exact hone.climb 5
  | succ n ih => exact Derives.link rfl ih (hone.climb 4)

/-- The function is derived from its tokens. -/
theorem derives_tower (k n : Nat) : Derives .expression (towerTokens k n) (tower k n) := by
  obtain ⟨body, hbody, htree⟩ := (derives_ones n).ofChain
  have hparameter : ShapedParameter IsTokenText argument :=
    .names (.name ⟨⟨'x', [], rfl, by decide, List.forall_mem_nil _⟩, by decide⟩)
  have hparameters : ∀ p ∈ List.replicate (k + 1) argument, ShapedParameter IsTokenText p :=
    fun p hp => List.eq_of_mem_replicate hp ▸ hparameter
  obtain ⟨params, hparams, htrees⟩ := exists_parameters (by simp) hparameters
  refine ⟨.function params body, ?_, ?_⟩
  · have hyield : (List.replicate (k + 1) argument).flatMap renderParameter =
        List.replicate (k + 1) (.identifier "x") := by
      rw [List.flatMap_replicate]
      exact List.flatten_replicate_singleton
    rw [Derivation.yield, hparams, hyield, hbody, towerTokens]
  · rw [Derivation.tree, htrees, htree]
    rfl

theorem forall_onesTokens {P : Token → Prop} (hone : P (.integer "1")) (hplus : P (.symbol .plus))
    (n : Nat) : ∀ t ∈ onesTokens n, P t := by
  induction n with
  | zero => exact List.forall_mem_singleton.mpr hone
  | succ n ih =>
    intro t ht
    rcases List.mem_append.mp ht with ht | ht
    · exact ih t ht
    · simp only [List.mem_cons, List.not_mem_nil, or_false] at ht
      rcases ht with rfl | rfl
      · exact hplus
      · exact hone

/-- What holds of the five tokens of the function. -/
theorem forall_towerTokens {P : Token → Prop} (hfn : P (.keyword .fnWord))
    (hx : P (.identifier "x")) (hdot : P (.symbol .dot)) (hone : P (.integer "1"))
    (hplus : P (.symbol .plus)) (k n : Nat) : ∀ t ∈ towerTokens k n, P t := by
  intro t ht
  rcases List.mem_cons.mp ht with rfl | ht
  · exact hfn
  rcases List.mem_append.mp ht with ht | ht
  · exact List.eq_of_mem_replicate ht ▸ hx
  rcases List.mem_cons.mp ht with rfl | ht
  · exact hdot
  · exact forall_onesTokens hone hplus n t ht

theorem lexical_towerTokens (k n : Nat) : ∀ t ∈ towerTokens k n, t.Lexical :=
  forall_towerTokens trivial ⟨⟨'x', [], rfl, by decide, List.forall_mem_nil _⟩, by decide⟩ trivial
    ⟨by decide, List.all_eq_true.mp (by decide)⟩ trivial k n

/-- What can be checked of the seven characters of the text. -/
theorem forall_written_tower {P : Char → Prop} [DecidablePred P]
    (hall : (" fnx.1+".toList.all fun c => P c) = true) (k n : Nat) :
    ∀ c ∈ (Token.written (towerTokens k n)).toList, P c := by
  have h : ∀ c ∈ " fnx.1+".toList, P c := fun c hc =>
    of_decide_eq_true (List.all_eq_true.mp hall c hc)
  have hsub : ∀ cs : List Char, cs ⊆ " fnx.1+".toList → ∀ c ∈ cs, P c :=
    fun cs hcs c hc => h c (hcs hc)
  refine Token.forall_written (h ' ' (by decide)) (forall_towerTokens ?_ ?_ ?_ ?_ ?_ k n)
  · exact hsub _ (by decide)
  · exact hsub _ (by decide)
  · exact hsub _ (by decide)
  · exact hsub _ (by decide)
  · exact hsub _ (by decide)

/-- **The program is read from its text.** -/
theorem parse_tower (k n : Nat) (filename : String) :
    parse filename (Token.written (towerTokens k n)) = .ok (tower k n) :=
  (parse_written_iff_derives (lexical_towerTokens k n) filename _).mpr (derives_tower k n)

/-- **The text of the program is decoded from its bytes.** -/
theorem decode_towerBytes (k n : Nat) (filename : String) :
    decode filename (towerBytes k n) = .ok (Token.written (towerTokens k n)) := by
  have hascii := forall_written_tower (P := fun c => c.toNat < 0x80) (by decide) k n
  have hreturn : '\r' ∉ (Token.written (towerTokens k n)).toList := fun h =>
    forall_written_tower (P := fun c => c ≠ '\r') (by decide) k n _ h rfl
  rw [decode, towerBytes, Text.decodeUtf8_asciiBytes hascii]
  simp only [Text.unifyNewlines_eq_self hreturn, String.ofList_toList]

/-! ## 4. Levels -/

theorem height_ones (n : Nat) : (ones n).height = n + 1 := by
  induction n with
  | zero => rfl
  | succ n ih =>
    have hone : (Tree.leaf .integer "1").height = 1 := rfl
    simp only [ones, Tree.branch, Tree.height, Tree.heightAll, ih, hone]
    omega

theorem heightAll_append (ts us : List Tree) :
    heightAll (ts ++ us) = max (heightAll ts) (heightAll us) := by
  induction ts with
  | nil => simp [heightAll]
  | cons t ts ih => simp only [List.cons_append, heightAll, ih, Nat.max_assoc]

/-- The arguments of the function add one level, however many they are. -/
theorem height_tower (k n : Nat) : (tower k n).height = n + 2 := by
  have harguments : ∀ k, heightAll (List.replicate k argument) ≤ 1 := by
    intro k
    induction k with
    | zero => exact Nat.zero_le 1
    | succ k ih => exact Nat.max_le.mpr ⟨Nat.le_refl 1, ih⟩
  have := harguments (k + 1)
  simp only [tower, Tree.branch, Tree.height, heightAll_append, heightAll, height_ones]
  omega

theorem height_lambdaChain (k : Nat) (body : Tree) (hb : 1 ≤ body.height) :
    (lambdaChain (List.replicate k argument) body).height = k + body.height := by
  induction k with
  | zero => exact (Nat.zero_add _).symm
  | succ k ih =>
    have hargument : argument.height = 1 := rfl
    rw [List.replicate_succ, lambdaChain, List.foldr_cons, ← lambdaChain]
    simp only [Tree.branch, Tree.height, heightAll, ih, hargument]
    omega

/-- In the standard form every argument adds a level. -/
theorem height_standardTower (k n : Nat) : (standardTower k n).height = k + n + 2 := by
  rw [standardTower, height_lambdaChain _ _ (by rw [height_ones]; omega), height_ones]
  omega

/-! ## 5. Standardizing and running -/

theorem standardize_ones (n : Nat) : (ones n).standardize = .ok (ones n) := by
  induction n with
  | zero => rfl
  | succ n ih =>
    exact standardize_eq_ok_iff.mpr ⟨_, .cons ih (.cons rfl .nil), .keep rfl⟩

/-- **The arguments come to stand one below the other.** -/
theorem standardize_tower (k n : Nat) : (tower k n).standardize = .ok (standardTower k n) := by
  have hchildren : ∀ t ∈ List.replicate (k + 1) argument ++ [ones n], t.standardize = .ok t := by
    intro t ht
    rcases List.mem_append.mp ht with ht | ht
    · exact List.eq_of_mem_replicate ht ▸ rfl
    · exact List.eq_of_mem_singleton ht ▸ standardize_ones n
  exact standardize_eq_ok_iff.mpr ⟨_, List.forall₂_same.mpr hchildren,
    .lambda none argument (List.replicate k argument) (ones n) 0⟩

theorem exact_ones (n : Nat) : (ones n).Exact := by
  have hone : (Tree.leaf .integer "1").Exact := .leaf (.inr (.inl rfl)) "1"
  induction n with
  | zero => exact hone
  | succ n ih =>
    exact .branch rfl (by decide) (List.forall_mem_cons.mpr ⟨ih, List.forall_mem_singleton.mpr hone⟩)

theorem exact_standardTower (k n : Nat) : (standardTower k n).Exact := by
  have hchain : ∀ k, (lambdaChain (List.replicate k argument) (ones n)).Exact := by
    intro k
    induction k with
    | zero => exact exact_ones n
    | succ k ih => exact .lambda (.names (.name trivial)) ih
  exact hchain (k + 1)

/-- The value of the program is a function, and it writes nothing. -/
theorem evaluate_tower (k n : Nat) : ∃ v, evaluate 1 (tower k n) = some ⟨"", .ok v⟩ := by
  have hcs := Control.structures_of_exact (exact_standardTower k n)
  obtain ⟨c, hbody⟩ : ∃ c, (Control.root (standardTower k n).closures).body = [.delta c] := by
    rw [closures, sites_eq]
    exact ⟨_, rfl⟩
  have hstart : Machine.start (Control.root (standardTower k n).closures) =
      { control := [.delta c.copy], values := [], env := .empty, output := "", steps := 0 } := by
    simp only [Machine.start, hbody, Item.copyAll, Item.copy, List.reverse_singleton]
  refine ⟨.delta { c.copy with env := .empty }, ?_⟩
  simp only [evaluate, compile, standardize_tower, hcs, Except.map, hstart]
  rfl

end Program

end Rpal
