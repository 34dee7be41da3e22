/-
# The texts of leaves

What is true of every token that can be read, wherever it stands, is true of the tokens of a
scanned text (`Scan.forall_token`), and so of the leaves of the tree (`Program.shaped_of_read`).

Here it is used for integers: wherever the tree of a program has an integer, its text is one or
more digits (`Program.every_integer_of_parse`).
-/
import Rpal.Proofs.Grammar.Trees
import Rpal.Proofs.Grammar.Parsing
import Rpal.Proofs.Token.Scanning
import Rpal.Proofs.Tree.Nodes

namespace Rpal

/-! ## 1. Tokens -/

/-- **What holds of every token that can be read** holds of all tokens of a text. -/
theorem Scan.forall_token {P : Token → Prop}
    (h : ∀ glued cs t behind, Token.read glued cs = some (t, behind) → P t) (cs : List Char)
    (offset : Nat) (glued : Bool) : ∀ l ∈ (fromOffset offset glued cs).lexemes, P l.token := by
  cases hread : Token.read (gluedAt glued cs) (Token.skipGap cs) with
  | none =>
    rw [(fromOffset_of_read_none offset hread).1]
    exact List.forall_mem_nil _
  | some r =>
    obtain ⟨t, behind⟩ := r
    obtain ⟨start, next, hstep⟩ := fromOffset_of_read offset hread
    have hlength : behind.length < cs.length :=
      Nat.lt_of_lt_of_le (Token.read_length_lt hread) (Token.skipGap_suffix cs).length_le
    rw [hstep]
    exact List.forall_mem_cons.mpr ⟨h _ _ _ _ hread, forall_token h behind next _⟩
termination_by cs.length

/-- An integer token is written in digits. -/
theorem Token.isDigits_of_read {glued : Bool} {cs behind : List Char} {digits : String}
    (h : read glued cs = some (.integer digits, behind)) : IsDigits digits := by
  obtain ⟨used, -, hread⟩ := readAs_of_read h
  generalize ht : Token.integer digits = t at hread
  cases hread with
  | word =>
    unfold ofWord at ht
    simp only at ht
    split at ht
    · cases ht
    · split at ht <;> cases ht
  | integer hne hcs =>
    cases ht
    rw [IsDigits, String.toList_ofList]
    exact ⟨hne, hcs⟩
  | string => cases ht
  | symbol => cases ht

/-! ## 2. Trees -/

namespace Tree

instance (kind : Kind) : Decidable kind.HasText :=
  inferInstanceAs (Decidable (_ ∨ _ ∨ _))

section Every

variable {L : Kind → String → Prop} {P : Tree → Prop}
  (hleaf : ∀ {kind : Kind} {text : String}, kind.HasText → L kind text → P (.leaf kind text))
  (hbranch : ∀ (kind : Kind) (ts : List Tree), ¬ kind.HasText → P (.branch kind ts))
include hleaf hbranch

theorem ShapedNames.every {p : Tree} (h : ShapedNames L p) : p.Every P := by
  cases h with
  | name h => exact every_leaf_iff.mpr (hleaf (.inl rfl) h)
  | names hn h =>
    exact every_branch_iff.mpr ⟨hbranch _ _ (by decide), List.forall_mem_map.mpr fun x hx =>
      every_leaf_iff.mpr (hleaf (.inl rfl) (h x hx))⟩

theorem ShapedParameter.every {p : Tree} (h : ShapedParameter L p) : p.Every P := by
  cases h with
  | names h => exact h.every hleaf hbranch
  | nothing => exact every_branch_iff.mpr ⟨hbranch _ _ (by decide), List.forall_mem_nil _⟩

/-- **What holds of the leaves** of a shaped tree, and of all nodes without a text, holds of every
node. -/
theorem Shaped.every {c : Category} {t : Tree} (h : Shaped L c t) : t.Every P := by
  have hnode : ∀ {kind : Kind} {ts : List Tree}, ¬ kind.HasText → (∀ t ∈ ts, t.Every P) →
      (branch kind ts).Every P :=
    fun hk hts => every_branch_iff.mpr ⟨hbranch _ _ hk, hts⟩
  have hpair : ∀ {t u : Tree}, t.Every P → u.Every P → ∀ s ∈ [t, u], s.Every P :=
    fun ht hu => List.forall_mem_cons.mpr ⟨ht, List.forall_mem_singleton.mpr hu⟩
  induction h with
  | name h => exact every_leaf_iff.mpr (hleaf (.inl rfl) h)
  | integer h => exact every_leaf_iff.mpr (hleaf (.inr (.inl rfl)) h)
  | string h => exact every_leaf_iff.mpr (hleaf (.inr (.inr rfl)) h)
  | constant hk =>
    have hall : ∀ k ∈ Kind.constants, ¬ k.HasText := by decide
    exact hnode (hall _ hk) (List.forall_mem_nil _)
  | negative _ ih => exact hnode (by decide) (List.forall_mem_singleton.mpr ih)
  | not _ ih => exact hnode (by decide) (List.forall_mem_singleton.mpr ih)
  | operator hk _ _ ihl ihr =>
    have hall : ∀ k ∈ Kind.operators, ¬ k.HasText := by decide
    exact hnode (hall _ hk) (hpair ihl ihr)
  | tau _ _ ih => exact hnode (by decide) ih
  | choice _ _ _ ihc iht ihe =>
    exact hnode (by decide) (List.forall_mem_cons.mpr ⟨ihc, hpair iht ihe⟩)
  | function _ hp _ ih =>
    exact hnode (by decide) (List.forall_mem_append.mpr
      ⟨fun p hmem => (hp p hmem).every hleaf hbranch, List.forall_mem_singleton.mpr ih⟩)
  | letIn _ _ ihd ihb => exact hnode (by decide) (hpair ihd ihb)
  | whereDef _ _ ihb ihd => exact hnode (by decide) (hpair ihb ihd)
  | infixCall hf _ _ ihl ihr =>
    exact hnode (by decide) (List.forall_mem_cons.mpr
      ⟨ihl, hpair (every_leaf_iff.mpr (hleaf (.inl rfl) hf)) ihr⟩)
  | equal hp _ ih => exact hnode (by decide) (hpair (hp.every hleaf hbranch) ih)
  | functionForm hf _ hp _ ih =>
    refine hnode (by decide) (List.forall_mem_cons.mpr
      ⟨every_leaf_iff.mpr (hleaf (.inl rfl) hf), List.forall_mem_append.mpr ⟨?_, ?_⟩⟩)
    · exact fun p hmem => (hp p hmem).every hleaf hbranch
    · exact List.forall_mem_singleton.mpr ih
  | within _ _ ih₁ ih₂ => exact hnode (by decide) (hpair ih₁ ih₂)
  | simultaneous _ _ ih => exact hnode (by decide) ih
  | recursive _ ih => exact hnode (by decide) (List.forall_mem_singleton.mpr ih)

end Every

/-- If the node is an integer, it is written in digits. -/
def WritesDigits (n : Tree) : Prop :=
  n.kind = .integer → ∃ digits, n.text = some digits ∧ Token.IsDigits digits

end Tree

namespace Program

open Grammar

/-! ## 3. Programs -/

/-- The tree of a program is shaped, from leaves with any texts that tokens can have. -/
theorem shaped_of_read {L : Kind → String → Prop}
    (h : ∀ glued cs t behind, Token.read glued cs = some (t, behind) → t.Carries L)
    {filename source : String} {t : Tree} (hparse : parse filename source = .ok t) :
    Tree.Shaped L .expression t :=
  shaped_of_tokens hparse fun _ => List.forall_mem_map.mpr (Scan.forall_token h _ _ _)

/-- **The integers of a program** are written in digits. -/
theorem every_integer_of_parse {filename source : String} {t : Tree}
    (h : parse filename source = .ok t) : t.Every Tree.WritesDigits := by
  have hshaped : Tree.Shaped (fun kind text => kind = .integer → Token.IsDigits text)
      .expression t := by
    refine shaped_of_read (fun glued cs t behind hread => ?_) h
    cases t with
    | integer digits => exact fun _ => Token.isDigits_of_read hread
    | identifier => exact Kind.noConfusion
    | string => exact Kind.noConfusion
    | keyword => trivial
    | symbol => trivial
  refine hshaped.every (fun _ htext hk => ⟨_, rfl, htext hk⟩) fun kind ts hk hinteger => ?_
  exact absurd (.inr (.inl hinteger)) hk

end Program

end Rpal
