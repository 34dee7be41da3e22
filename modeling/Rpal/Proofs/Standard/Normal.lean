/-
# Normal forms

Standardizing rewrites every tree, however malformed, to a *normal* one, unless it fails: without
sugar, and with functions of one parameter only.  Normal trees are exactly the trees that
standardizing returns as they are, so one pass is enough:

* `isNormal_of_standardize`: the result of a pass is normal;
* `standardize_eq_self_iff`: the normal trees are the fixed points;
* `every_kind_iff`: no kind is lost and none comes in, apart from the sugar and the six kinds
  that rules build;
* `isStandard_iff`: what the check of a standard form accepts.

A tree of a kind outside the vocabulary keeps it, so a normal tree need not pass the check; which
ones do is seen before the pass already (`standardize_normal`).
-/
import Rpal.Proofs.Standard.Rewriting

namespace Rpal.Tree

/-- A normal tree: no sugar, and functions of one parameter. -/
def IsNormal (t : Tree) : Prop :=
  t.Every fun n => n.kind ∉ Kind.sugar ∧ (n.kind = .lambda → n.children.length = 2)

/-! ## 1. Fixed points -/

/-- A node that is no sugar and no function of several parameters is left alone. -/
theorem rewrites_self {t : Tree} (hsugar : t.kind ∉ Kind.sugar)
    (hlambda : t.kind = .lambda → t.children.length = 2) : Rewrites t t := by
  obtain ⟨kind, text, children, arity⟩ := t
  by_cases hk : kind = .lambda
  · subst hk
    obtain ⟨p, body, rfl⟩ := List.length_eq_two.mp (hlambda rfl)
    exact .lambda text p [] body arity
  · have hrule : hasRule kind ≠ true := fun h => (hasRule_iff.mp h).elim hsugar hk
    exact .keep (Bool.eq_false_iff.mpr hrule)

theorem IsNormal.standardize_eq {t : Tree} (h : t.IsNormal) : t.standardize = .ok t := by
  induction t using induction with
  | node t ih =>
    obtain ⟨hroot, hbelow⟩ := every_iff.mp h
    obtain ⟨kind, text, children, arity⟩ := t
    refine standardize_eq_ok_iff.mpr ⟨children, ?_, rewrites_self hroot.1 hroot.2⟩
    exact List.forall₂_same.mpr fun c hc => ih c hc (hbelow c hc)

/-- **One pass reaches a normal form.** -/
theorem isNormal_of_standardize {t s : Tree} (h : t.standardize = .ok s) : s.IsNormal := by
  have hsugar : ∀ k ∈ Kind.built, k ∉ Kind.sugar := by decide
  refine standardize_induction (R := fun _ s => s.IsNormal) ?_ t s h
  intro kind text children cs arity s hcs hrewrites
  refine hrewrites.every (fun n hk hn => ⟨hsugar _ hk, hn⟩) ?_ ?_
  · intro hrule
    rw [← Bool.not_eq_true, hasRule_iff, not_or] at hrule
    exact ⟨hrule.1, fun hk => absurd hk hrule.2⟩
  · intro c hc
    obtain ⟨_, _, hnormal⟩ := exists_of_mem_forall₂ (List.Forall₂.flip hcs) hc
    exact hnormal

/-- **Normal trees are the fixed points.** -/
theorem standardize_eq_self_iff {t : Tree} : t.standardize = .ok t ↔ t.IsNormal :=
  ⟨isNormal_of_standardize, IsNormal.standardize_eq⟩

/-! ## 2. Kinds -/

/-- **No kind is lost.**  If the kinds that rules build are among some kinds, the standard form is
of these kinds exactly when the tree is, apart from its sugar. -/
theorem every_kind_iff {K : Kind → Prop} (hbuilt : ∀ k ∈ Kind.built, K k) {t s : Tree}
    (h : t.standardize = .ok s) :
    (s.Every fun n => K n.kind) ↔ t.Every fun n => K n.kind ∨ n.kind ∈ Kind.sugar := by
  constructor
  · refine standardize_induction (R := fun t s => (s.Every fun n => K n.kind) →
      t.Every fun n => K n.kind ∨ n.kind ∈ Kind.sugar) ?_ t s h
    intro kind text children cs arity s hcs hrewrites hs
    refine every_iff.mpr ⟨?_, fun child hchild => ?_⟩
    · -- a root without a rule is the root of the standard form
      by_cases hrule : hasRule kind = true
      · rcases hasRule_iff.mp hrule with hsugar | rfl
        · exact .inr hsugar
        · exact .inl (hbuilt .lambda (by decide))
      · have hkeep := applyRule_of_not_hasRule (t := ⟨kind, text, cs, arity⟩)
          (Bool.eq_false_iff.mpr hrule)
        rw [applyRule_eq_ok_iff.mpr hrewrites] at hkeep
        cases hkeep
        exact .inl hs.root
    · obtain ⟨c, hc, hkinds⟩ := exists_of_mem_forall₂ hcs hchild
      refine hkinds fun n hn => ?_
      rcases hrewrites.mem_nodes hc hn with hequal | hn
      · exact hequal ▸ hbuilt .equal (by decide)
      · exact hs n hn
  · intro ht n hn
    have hkinds : s.Every fun n => K n.kind ∨ n.kind ∈ Kind.sugar :=
      every_of_standardize (fun _ hk _ => .inl (hbuilt _ hk)) (fun _ _ _ _ _ hk => hk) h ht
    exact (hkinds n hn).resolve_right (isNormal_of_standardize h n hn).1

/-! ## 3. Standard forms -/

theorem allStandard_iff {ts : List Tree} :
    allStandard ts = true ↔ ∀ t ∈ ts, t.isStandard = true := by
  induction ts with
  | nil => simp only [allStandard, List.not_mem_nil, false_imp_iff, implies_true]
  | cons t ts ih => rw [allStandard, Bool.and_eq_true, ih, List.forall_mem_cons]

theorem isStandard_iff {t : Tree} : t.isStandard = true ↔
    t.Every fun n => isCanonicalKind n.kind = true ∧
      (n.kind = .lambda → n.children.length = 2) := by
  induction t using induction with
  | node t ih =>
    rw [every_iff, ← forall₂_congr ih]
    obtain ⟨kind, text, children, arity⟩ := t
    simp only [isStandard, Bool.and_eq_true, allStandard_iff, Bool.or_eq_true, bne_iff_ne,
      beq_iff_eq, ← imp_iff_not_or]

/-- The check accepts the normal trees of the canonical kinds. -/
theorem isStandard_iff_isNormal {t : Tree} : t.isStandard = true ↔
    t.IsNormal ∧ t.Every fun n => isCanonicalKind n.kind = true := by
  have hsugar : ∀ k ∈ Kind.sugar, isCanonicalKind k = false := by decide
  rw [isStandard_iff]
  constructor
  · intro h
    refine ⟨fun n hn => ⟨fun hk => ?_, (h n hn).2⟩, fun n hn => (h n hn).1⟩
    exact absurd (h n hn).1 (Bool.eq_false_iff.mp (hsugar _ hk))
  · rintro ⟨hnormal, hkinds⟩ n hn
    exact ⟨hkinds n hn, (hnormal n hn).2⟩

/-! ## 4. Normal forms -/

/-- **The normal form of a tree.**  Where standardizing succeeds, the result has no sugar and only
functions of one parameter, standardizing it again returns it, and it passes the check for standard
forms exactly when the tree was made of canonical kinds and sugar.  A tree that passes the check is
returned as it is. -/
theorem standardize_normal (t : Tree) :
    (∀ s, t.standardize = .ok s →
      (∀ n ∈ s.nodes, n.kind ∉ Kind.sugar ∧ (n.kind = .lambda → n.children.length = 2)) ∧
      s.standardize = .ok s ∧
      (s.isStandard = true ↔
        ∀ n ∈ t.nodes, isCanonicalKind n.kind = true ∨ n.kind ∈ Kind.sugar)) ∧
    (t.isStandard = true → t.standardize = .ok t) := by
  constructor
  · intro s h
    have hnormal := isNormal_of_standardize h
    refine ⟨hnormal, hnormal.standardize_eq, ?_⟩
    rw [isStandard_iff_isNormal, and_iff_right hnormal]
    exact every_kind_iff (K := fun k => isCanonicalKind k = true) (by decide) h
  · intro h
    exact (isStandard_iff_isNormal.mp h).1.standardize_eq

/-- `let rec f x = f x in f` -/
theorem standardize_normal_recursion :
    let f : Tree := .leaf .identifier "f"
    let x : Tree := .leaf .identifier "x"
    let t : Tree := .branch .letIn
      [.branch .recDef [.branch .functionForm [f, x, .branch .gamma [f, x]]], f]
    let s : Tree := .branch .gamma [.branch .lambda [f, f], .branch .gamma [.branch .yStar [],
      .branch .lambda [f, .branch .lambda [x, .branch .gamma [f, x]]]]]
    t.standardize = .ok s ∧ (∀ n ∈ s.nodes, n.kind ∉ Kind.sugar) ∧ s.isStandard = true ∧
      s.standardize = .ok s := by
  intro f x t s
  have h : t.standardize = .ok s := rfl
  obtain ⟨hnodes, -, hstandard⟩ := (standardize_normal t).1 s h
  have hs : s.isStandard = true := hstandard.mpr (by decide)
  exact ⟨h, fun n hn => (hnodes n hn).1, hs, (standardize_normal s).2 hs⟩

end Rpal.Tree
