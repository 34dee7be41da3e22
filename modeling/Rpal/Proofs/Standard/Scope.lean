/-
# Free names

`free` lists the names that are free in a standard form, where only functions bind names, and
`rawFree` those that are free in a raw tree, where definitions bind names as well:

    let D in B, B where D     the names of D are bound in B
    D1 within D2              the names of D1 are bound in D2
    D1 and .. and Dn          no name is bound
    rec D                     the names of D are bound in D
    f p1 .. pn = E            the names of the parameters are bound in E
    fn p1 .. pn . E           the names of the parameters are bound in E
    E1 @ f E2                 f is free

Standardizing keeps the free names (`Shaped.free_standardize`).
-/
import Mathlib.Data.Finset.Lattice.Lemmas
import Mathlib.Data.Finset.SDiff
import Rpal.Proofs.Standard.Rules

namespace Rpal.Tree

/-! ## 1. Names that are bound -/

mutual

/-- The names in a pattern or a parameter, however deep. -/
def bound : Tree → Finset Variable
  | ⟨kind, text, children, _⟩ =>
    match kind with
    | .identifier => {text}
    | .comma => boundAll children
    | _ => ∅

/-- The names in neighbours. -/
def boundAll : List Tree → Finset Variable
  | [] => ∅
  | p :: ps => p.bound ∪ boundAll ps

end

mutual

/-- The names that a definition binds. -/
def defined : Tree → Finset Variable
  | ⟨kind, _, children, _⟩ =>
    match kind, children with
    | .equal, [pattern, _] => pattern.bound
    | .functionForm, f :: _ => f.bound
    | .within, [_, d] => d.defined
    | .simultDef, ds => definedAll ds
    | .recDef, [d] => d.defined
    | _, _ => ∅

/-- The names that definitions side by side bind. -/
def definedAll : List Tree → Finset Variable
  | [] => ∅
  | d :: ds => d.defined ∪ definedAll ds

end

/-! ## 2. Names that are free -/

mutual

/-- The free names of a standard form. -/
def free : Tree → Finset Variable
  | ⟨kind, text, children, _⟩ =>
    match kind, children with
    | .identifier, _ => {text}
    | .lambda, [param, body] => body.free \ param.bound
    | _, children => freeAll children

/-- The free names of neighbours. -/
def freeAll : List Tree → Finset Variable
  | [] => ∅
  | t :: ts => t.free ∪ freeAll ts

end

mutual

/-- The free names of a raw tree: of an expression, or of the right-hand sides of a definition. -/
def rawFree : Tree → Finset Variable
  | ⟨kind, text, children, _⟩ =>
    match kind, children with
    | .identifier, _ => {text}
    | .lambda, children => functionFree children
    | .letIn, [d, body] => d.rawFree ∪ body.rawFree \ d.defined
    | .whereDef, [body, d] => d.rawFree ∪ body.rawFree \ d.defined
    | .equal, [_, value] => value.rawFree
    | .functionForm, _ :: rest => functionFree rest
    | .within, [d₁, d₂] => d₁.rawFree ∪ d₂.rawFree \ d₁.defined
    | .recDef, [d] => d.rawFree \ d.defined
    | _, children => rawFreeAll children

/-- The free names of neighbours. -/
def rawFreeAll : List Tree → Finset Variable
  | [] => ∅
  | t :: ts => t.rawFree ∪ rawFreeAll ts

/-- The free names of a function, from its parameters and its body. -/
def functionFree : List Tree → Finset Variable
  | [] => ∅
  | [body] => body.rawFree
  | p :: rest => functionFree rest \ p.bound

end

/-! ## 3. Nodes that bind nothing -/

theorem free_node {kind : Kind} (h₁ : kind ≠ .identifier) (h₂ : kind ≠ .lambda)
    (text : Option String) (children : List Tree) (arity : Nat) :
    free ⟨kind, text, children, arity⟩ = freeAll children := by
  cases kind <;> first | rfl | contradiction

theorem rawFree_branch {kind : Kind} (h₁ : hasRule kind = false) (h₂ : kind ≠ .identifier)
    (h₃ : kind ≠ .equal) (ts : List Tree) : (branch kind ts).rawFree = rawFreeAll ts := by
  cases kind <;> first | rfl | contradiction

theorem free_subset_freeAll {t : Tree} {ts : List Tree} (h : t ∈ ts) : t.free ⊆ freeAll ts := by
  induction ts with
  | nil => cases h
  | cons u us ih =>
    rcases List.mem_cons.mp h with rfl | h
    · exact Finset.subset_union_left
    · exact (ih h).trans Finset.subset_union_right

theorem freeAll_pair (t u : Tree) : freeAll [t, u] = t.free ∪ u.free := by
  simp only [freeAll, Finset.union_empty]

/-- The form that a definition around a body becomes. -/
theorem free_binding (x body value : Tree) :
    (binding x body value).free = value.free ∪ body.free \ x.bound := by
  show freeAll [.branch .lambda [x, body], value] = _
  rw [freeAll_pair, Finset.union_comm]
  rfl

/-- Functions of one parameter each bind what the function of all parameters binds. -/
theorem free_lambdaChain {params : List Tree} {body b : Tree} (h : b.free = body.rawFree) :
    (lambdaChain params b).free = functionFree (params ++ [body]) := by
  induction params with
  | nil => exact h
  | cons p ps ih =>
    obtain ⟨next, rest, hlist⟩ := List.exists_cons_of_ne_nil (List.concat_ne_nil body ps)
    have hfree : (lambdaChain (p :: ps) b).free = (lambdaChain ps b).free \ p.bound := rfl
    rw [hfree, ih, List.cons_append, hlist]
    rfl

/-! ## 4. Free names of standard forms -/

theorem freeAll_eq_of_forall₂ {ts ss : List Tree}
    (h : List.Forall₂ (fun t s => s.free = t.rawFree) ts ss) : freeAll ss = rawFreeAll ts := by
  induction h with
  | nil => rfl
  | cons hts _ ih => rw [freeAll, rawFreeAll, hts, ih]

/-- The equation of a definition binds the names of the definition and has its free names. -/
def SameScope (d x e : Tree) : Prop := x.bound = d.defined ∧ e.free = d.rawFree

theorem sameScope_of_forall₂ {ds : List Tree} {pairs : List (Tree × Tree)}
    (h : List.Forall₂ (fun d p => SameScope d p.1 p.2) ds pairs) :
    boundAll (pairs.map Prod.fst) = definedAll ds ∧
      freeAll (pairs.map Prod.snd) = rawFreeAll ds := by
  induction h with
  | nil => exact ⟨rfl, rfl⟩
  | cons hdp _ ih =>
    rw [List.map_cons, List.map_cons, boundAll, definedAll, freeAll, rawFreeAll, hdp.1, hdp.2,
      ih.1, ih.2]
    exact ⟨rfl, rfl⟩

theorem scopeRules (L : Kind → String → Prop) :
    StandardizingRules L (fun t s => s.free = t.rawFree) SameScope where
  leaf text hk := by
    rcases hk with rfl | rfl | rfl <;> rfl
  constant {kind} hk := by
    have hall : ∀ k ∈ Kind.constants, (branch k []).free = (branch k []).rawFree := by decide
    exact hall kind hk
  unary hk h := by
    rcases hk with rfl | rfl
    · exact congrArg (· ∪ ∅) h
    · exact congrArg (· ∪ ∅) h
  operator {kind _ _ _ _} hk h₁ h₂ := by
    have hall : ∀ k ∈ Kind.operators,
        hasRule k = false ∧ k ≠ .identifier ∧ k ≠ .lambda ∧ k ≠ .equal := by decide
    obtain ⟨hrule, hid, hlambda, hequal⟩ := hall kind hk
    rw [rawFree_branch hrule hid hequal]
    exact (free_node hid hlambda _ _ _).trans (freeAll_eq_of_forall₂ (.cons h₁ (.cons h₂ .nil)))
  tau _ h := freeAll_eq_of_forall₂ h
  choice h₁ h₂ h₃ := freeAll_eq_of_forall₂ (.cons h₁ (.cons h₂ (.cons h₃ .nil)))
  function _ _ h := free_lambdaChain h
  letIn hd h := by
    rw [free_binding, hd.1, hd.2, h]
    rfl
  whereDef hd h := by
    rw [free_binding, hd.1, hd.2, h]
    rfl
  infixCall {t u s v} f h₁ h₂ := by
    have hinner : (branch .gamma [.leaf .identifier f, s]).free = {some f} ∪ s.free :=
      freeAll_pair _ _
    have hraw : (branch .atCall [t, .leaf .identifier f, u]).rawFree =
        t.rawFree ∪ ({some f} ∪ (u.rawFree ∪ ∅)) := rfl
    rw [hraw, Finset.union_empty, ← h₁, ← h₂, Finset.union_left_comm, ← Finset.union_assoc,
      ← hinner]
    exact freeAll_pair _ _
  equal _ h := ⟨rfl, h⟩
  functionForm f _ _ h := ⟨rfl, free_lambdaChain h⟩
  within h₁ h₂ := by
    refine ⟨h₂.1, ?_⟩
    rw [free_binding, h₁.1, h₁.2, h₂.2]
    rfl
  simultaneous _ h := sameScope_of_forall₂ h
  recursive {d x e} h := by
    refine ⟨h.1, ?_⟩
    have hraw : (branch .recDef [d]).rawFree = d.rawFree \ d.defined := rfl
    rw [hraw, ← h.1, ← h.2]
    exact (freeAll_pair _ _).trans (Finset.empty_union _)

/-- **Standardizing keeps the free names.** -/
theorem Shaped.free_standardize {L : Kind → String → Prop} {t : Tree}
    (h : Shaped L .expression t) : ∃ s, t.standardize = .ok s ∧ s.free = t.rawFree :=
  h.standardizes (scopeRules L)

end Rpal.Tree
