/-
# The trees of derivations

Every derivation builds a tree of the shape that its nonterminal stands for, with the texts of its
tokens at the leaves (`Derivation.shaped`).  So every tree that is read from a source text is
shaped (`Program.shaped_of_parse`).
-/
import Rpal.Proofs.Grammar.Parsing
import Rpal.Proofs.Tree.WellFormed

namespace Rpal

namespace Grammar

open Rpal.Tree

variable {L : Kind → String → Prop}

/-! ## 1. Nonterminals and shapes -/

/-- What a phrase of a nonterminal builds. -/
def Nonterminal.Builds (L : Kind → String → Prop) : Nonterminal → Tree → Prop
  | .definition | .simultaneous | .recursive | .basic => Shaped L .definition
  | .parameter => ShapedParameter L
  | .names => ShapedNames L
  | _ => Shaped L .expression

theorem Derivations.trees_ne_nil {n : Nonterminal} (ds : Derivations n) : ds.trees ≠ [] := by
  cases ds <;> exact List.cons_ne_nil _ _

/-- The operators of chains build the kinds of operators. -/
theorem Chain.mem_operators {c : Chain} {op : Token} {kind : Kind}
    (h : c.operator? op = some kind) : kind ∈ Kind.operators := by
  unfold Chain.operator? at h
  split at h <;> cases h <;> decide

/-- So do the comparisons. -/
theorem mem_operators_of_comparison? {op : Token} {kind : Kind} (h : comparison? op = some kind) :
    kind ∈ Kind.operators := by
  unfold comparison? at h
  split at h <;> cases h <;> decide

/-- A token that is an operand by itself builds a leaf, with its text, or a constant. -/
theorem shaped_of_atom? {token : Token} {leaf : Tree} (h : atom? token = some leaf)
    (ht : token.Carries L) : Shaped L .expression leaf := by
  unfold atom? at h
  split at h <;> cases h
  · exact .name ht
  · exact .integer ht
  · exact .string ht
  · exact .constant (by decide)
  · exact .constant (by decide)
  · exact .constant (by decide)
  · exact .constant (by decide)

/-- The names of a list are carried by its tokens. -/
theorem of_mem_commaNames {xs : List String} (h : ∀ t ∈ commaNames xs, t.Carries L) :
    ∀ x ∈ xs, L .identifier x := fun x hx =>
  h (.identifier x) (List.mem_flatMap.mpr ⟨x, hx, List.mem_cons_of_mem _ List.mem_cons_self⟩)

/-! ## 2. Derivations -/

mutual

/-- **What is derived** has the shape that its nonterminal builds. -/
theorem Derivation.shaped : {n : Nonterminal} → (d : Derivation n) →
    (∀ t ∈ d.yield, t.Carries L) → n.Builds L d.tree
  | _, .letIn d body, h => by
    simp only [Derivation.yield, List.forall_mem_cons, List.forall_mem_append] at h
    exact .letIn (shaped d h.2.1) (shaped body h.2.2.2)
  | _, .function params body, h => by
    simp only [Derivation.yield, List.forall_mem_cons, List.forall_mem_append] at h
    exact .function params.trees_ne_nil (shapeds _ params h.2.1) (shaped body h.2.2.2)
  | _, .unscoped t, h => shaped t h
  | _, .whereDef t d, h => by
    simp only [Derivation.yield, List.forall_mem_cons, List.forall_mem_append] at h
    exact .whereDef (shaped t h.1) (shaped d h.2.2)
  | _, .unqualified t, h => shaped t h
  | _, .tau first rest, h => by
    simp only [Derivation.yield, List.forall_mem_append] at h
    have hpos := List.length_pos_iff.mpr rest.trees_ne_nil
    exact .tau (Nat.succ_le_succ hpos)
      (List.forall_mem_cons.mpr ⟨shaped first h.1, shapeds _ rest h.2⟩)
  | _, .untupled t, h => shaped t h
  | _, .link c op kind hop left right, h => by
    simp only [Derivation.yield, List.forall_mem_cons, List.forall_mem_append] at h
    have hright : Shaped L .expression right.tree := by
      have := shaped right h.2.2
      cases c <;> exact this
    exact .operator (Chain.mem_operators hop) (shaped left h.1) hright
  | _, .start c t, h => by
    have := shaped t h
    cases c <;> exact this
  | _, .positive t, h => shaped t (List.forall_mem_cons.mp h).2
  | _, .negative t, h => .negative (shaped t (List.forall_mem_cons.mp h).2)
  | _, .choice condition thenPart elsePart, h => by
    simp only [Derivation.yield, List.forall_mem_cons, List.forall_mem_append] at h
    exact .choice (shaped condition h.1) (shaped thenPart h.2.2.1)
      (shaped elsePart h.2.2.2.2)
  | _, .unconditional t, h => shaped t h
  | _, .not t, h => .not (shaped t (List.forall_mem_cons.mp h).2)
  | _, .unnegated t, h => shaped t h
  | _, .compare op kind hop left right, h => by
    simp only [Derivation.yield, List.forall_mem_cons, List.forall_mem_append] at h
    exact .operator (mem_operators_of_comparison? hop) (shaped left h.1)
      (shaped right h.2.2)
  | _, .uncompared t, h => shaped t h
  | _, .raise base exponent, h => by
    simp only [Derivation.yield, List.forall_mem_cons, List.forall_mem_append] at h
    exact .operator (by decide) (shaped base h.1) (shaped exponent h.2.2)
  | _, .unraised t, h => shaped t h
  | _, .call left f right, h => by
    simp only [Derivation.yield, List.forall_mem_cons, List.forall_mem_append] at h
    exact .infixCall h.2.2.1 (shaped left h.1) (shaped right h.2.2.2)
  | _, .uncalled t, h => shaped t h
  | _, .apply f argument, h => by
    simp only [Derivation.yield, List.forall_mem_append] at h
    exact .operator (by decide) (shaped f h.1) (shaped argument h.2)
  | _, .unapplied t, h => shaped t h
  | _, .atom _ _ hleaf, h => shaped_of_atom? hleaf (List.forall_mem_singleton.mp h)
  | _, .bracket t, h => by
    simp only [Derivation.yield, List.forall_mem_cons, List.forall_mem_append] at h
    exact shaped t h.2.1
  | _, .within first second, h => by
    simp only [Derivation.yield, List.forall_mem_cons, List.forall_mem_append] at h
    exact .within (shaped first h.1) (shaped second h.2.2)
  | _, .unnested d, h => shaped d h
  | _, .and first rest, h => by
    simp only [Derivation.yield, List.forall_mem_append] at h
    have hpos := List.length_pos_iff.mpr rest.trees_ne_nil
    exact .simultaneous (Nat.succ_le_succ hpos)
      (List.forall_mem_cons.mpr ⟨shaped first h.1, shapeds _ rest h.2⟩)
  | _, .alone d, h => shaped d h
  | _, .recursive d, h => .recursive (shaped d (List.forall_mem_cons.mp h).2)
  | _, .plain d, h => shaped d h
  | _, .functionForm f params body, h => by
    simp only [Derivation.yield, List.forall_mem_cons, List.forall_mem_append] at h
    exact .functionForm h.1 params.trees_ne_nil (shapeds _ params h.2.1)
      (shaped body h.2.2.2)
  | _, .equal xs value, h => by
    simp only [Derivation.yield, List.forall_mem_cons, List.forall_mem_append] at h
    exact .equal (shaped xs h.1) (shaped value h.2.2)
  | _, .bracketed d, h => by
    simp only [Derivation.yield, List.forall_mem_cons, List.forall_mem_append] at h
    exact shaped d h.2.1
  | _, .parameter x, h => .names (.name (h (.identifier x) List.mem_cons_self))
  | _, .pattern xs, h => by
    simp only [Derivation.yield, List.forall_mem_cons, List.forall_mem_append] at h
    exact .names (shaped xs h.2.1)
  | _, .nothing, _ => .nothing
  | _, .names x y rest, h => by
    rw [Derivation.yield, List.forall_mem_cons] at h
    have hnames : ∀ z ∈ x :: y :: rest, L .identifier z :=
      List.forall_mem_cons.mpr ⟨h.1, of_mem_commaNames h.2⟩
    exact .names (Nat.succ_le_succ (Nat.succ_le_succ (Nat.zero_le _))) hnames
  | _, .name x, h => .name (h (.identifier x) List.mem_cons_self)

/-- Neighbours build neighbours. -/
theorem Derivation.shapeds (separator : List Token) : {n : Nonterminal} →
    (ds : Derivations n) → (∀ t ∈ ds.yield separator, t.Carries L) → ∀ t ∈ ds.trees, n.Builds L t
  | _, .last d, h => by
    rw [Derivations.yield, List.forall_mem_append] at h
    exact List.forall_mem_singleton.mpr (shaped d h.2)
  | _, .cons d ds, h => by
    simp only [Derivations.yield, List.forall_mem_append] at h
    exact List.forall_mem_cons.mpr ⟨shaped d h.1.2, shapeds separator ds h.2⟩

end

end Grammar

namespace Program

open Grammar

/-! ## 3. Source texts -/

variable {filename source : String} {t : Tree}

/-- **What the tokens of a program carry** is what the leaves of its tree have. -/
theorem shaped_of_tokens {L : Kind → String → Prop} (h : parse filename source = .ok t)
    (hL : (Scan.ofText (Text.expandTabs source.toList)).complete →
      ∀ token ∈ (Scan.ofText (Text.expandTabs source.toList)).lexemes.map (·.token),
        token.Carries L) : Tree.Shaped L .expression t := by
  rw [parse_eq_ok_iff, Tree.ofText, Tree.ofScan_eq_ok_iff] at h
  obtain ⟨hcomplete, d, hyield, rfl⟩ := h
  refine d.shaped ?_
  rw [hyield]
  exact hL hcomplete

/-- **Every tree that is read from a source text** is shaped. -/
theorem shaped_of_parse (h : parse filename source = .ok t) :
    Tree.Shaped (fun _ _ => True) .expression t :=
  shaped_of_tokens h fun _ token _ => by cases token <;> trivial

end Program

end Rpal
