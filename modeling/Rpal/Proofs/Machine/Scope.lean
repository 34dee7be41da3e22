/-
# No undeclared identifiers

A name that is up next is free in the body of the function that is running.  If it is bound by a
function around the body, the environment binds it as well, since environments are lexical; if not,
it is free in the program.  So a program whose free names are those of built-in functions never
reports an undeclared identifier (`Program.scope_of_parse`):

    name that is up next        found in
    bound around the body       the environment
    free in the program         the built-in functions
-/
import Rpal.Proofs.Control.Names
import Rpal.Proofs.Grammar.Trees
import Rpal.Proofs.Machine.Lexical

namespace Rpal

/-! ## 1. Pending names -/

theorem Remaining.usesIn {Q : Variable → Prop} {body rest : List Item}
    (hb : Item.UsesIn Q body) (h : Remaining body rest) : Item.UsesIn Q rest := by
  induction h with
  | all => simpa [Item.usesIn_iff] using Item.usesIn_iff.mp hb
  | next _ ih => exact ih.2
  | @branch _ _ _ taken _ ht ih =>
    have htaken : Item.UsesIn Q taken := by
      rcases ht with rfl | rfl
      · exact ih.1.1
      · exact ih.1.2
    refine Item.usesIn_append.mpr ⟨?_, ih.2⟩
    simpa [Item.usesIn_iff] using Item.usesIn_iff.mp htaken

theorem Pending.usesIn {Q : Variable → Prop} {body rest : List Item}
    (hb : Item.UsesIn Q body) (h : Pending body rest) : Item.UsesIn Q rest := by
  cases h with
  | remaining h => exact h.usesIn hb
  | unrolled h _ =>
    refine Item.usesIn_append.mpr ⟨Item.usesIn_iff.mpr fun i hi => ?_, (h.usesIn hb).2⟩
    rw [List.eq_of_mem_replicate hi]
    exact Kind.noConfusion

/-! ## 2. Steps -/

/-- **A step from a lexical state** does not report an undeclared identifier if the free names of
the program are those of built-in functions. -/
theorem Lexical.step_ne_unbound {t : Tree} (h : t.IsCore)
    (hfree : ∀ x ∈ t.free, ∃ b : Builtin, x = some b.name) {m : Machine} (hm : Lexical t m)
    (x : Variable) : m.step ≠ .error (.fault (.unbound x)) := by
  intro hs
  obtain ⟨⟨site, env, segment⟩, callers, henv, hcontrol, hruns, htop, -, -⟩ := hm
  have hrun := hruns _ List.mem_cons_self
  cases segment with
  | nil =>
    -- a run that is over, or the marker of the caller
    cases callers with
    | nil =>
      rw [Machine.step, hcontrol] at hs
      cases hs
    | cons b callers => cases Machine.refusal_of_step hcontrol hs
  | cons i rest =>
    rw [Activation.control_cons] at hcontrol
    obtain ⟨children, arity, rfl, hunbound, hbuiltin⟩ :=
      (Machine.refusal_of_step hcontrol hs).unbound_inv
    have huses := (Activation.pending_of_top htop).usesIn (Control.usesIn_bodyOf h hrun.mem)
    rcases h.free_of_mem_sites site hrun.mem x (huses.1 rfl) with hx | ⟨names, hnames, hx⟩
    · obtain ⟨b, rfl⟩ := hfree x hx
      rw [Option.bind_some, Builtin.ofName?_name] at hbuiltin
      cases hbuiltin
    · have hframes : names ∈ env.frames := by
        rw [← List.mem_reverse, hrun.frames]
        exact List.mem_cons_of_mem _ hnames
      have hbound : m.env.isBound x = true := by
        rw [henv]
        exact (Env.isBound_iff x env).mpr ⟨names, hframes, hx⟩
      cases hbound.symm.trans hunbound

/-! ## 3. Runs -/

/-- **A run** does not report an undeclared identifier either, however long it is. -/
theorem Tree.IsCore.run_ne_unbound {t : Tree} (h : t.IsCore)
    (hfree : ∀ x ∈ t.free, ∃ b : Builtin, x = some b.name) {budget : Nat} {r : Machine.Result}
    (hr : (Machine.start (Control.root (t.sites.map (Control.structureOf t.number)))).run budget =
      some r) (x : Variable) : r.answer ≠ .error (.fault (.unbound x)) := by
  obtain ⟨n, last, hsteps, hend⟩ := Machine.steps_of_run hr
  have hlast : Lexical t last :=
    hsteps.invariant (fun m next hm hbusy hs => hm.step h hbusy hs) (lexical_start t)
  rcases hend with ⟨-, rfl⟩ | ⟨f, ⟨-, hf⟩, rfl⟩
  · unfold Machine.finish
    split
    · intro hfault
      cases hfault
    · intro hfault
      cases hfault
  · intro hfault
    obtain rfl : f = .fault (.unbound x) := Except.error.inj hfault
    exact hlast.step_ne_unbound h hfree x hf

namespace Program

/-- **Scope safety.**  The standard form of what is parsed has the same free names as the raw tree,
and if these are names of built-in functions, then no run of the source text reports an undeclared
identifier. -/
theorem scope_of_parse {filename source : String} {t : Tree} (h : parse filename source = .ok t) :
    (∃ s, t.standardize = .ok s ∧ s.free = t.rawFree) ∧
    ((∀ x ∈ t.rawFree, ∃ b : Builtin, x = some b.name) →
      ∀ budget o, run budget source = some o →
        ∀ x, o.answer ≠ .error (.failure (.fault (.unbound x)))) := by
  obtain ⟨s, hs, hfree⟩ := (shaped_of_parse h).free_standardize
  refine ⟨⟨s, hs, hfree⟩, fun hbuiltin budget o ho x hx => ?_⟩
  rw [← hfree] at hbuiltin
  have hparse : parse unnamed source = .ok t :=
    (parse_eq_ok_iff _ _ _).mpr ((parse_eq_ok_iff _ _ _).mp h)
  simp only [run, hparse, evaluate, compile, hs] at ho
  cases hcs : Control.structures s with
  | error e =>
    rw [hcs] at ho
    cases ho
    cases hx
  | ok cs =>
    obtain ⟨hcore, rfl⟩ := (Tree.isRaw_of_parse h).structures hs hcs
    simp only [hcs, Except.map, Option.map_eq_some_iff] at ho
    obtain ⟨r, hr, rfl⟩ := ho
    refine hcore.run_ne_unbound hbuiltin hr x ?_
    cases hanswer : r.answer with
    | ok v =>
      rw [hanswer] at hx
      cases hx
    | error f =>
      rw [hanswer] at hx
      cases hx
      rfl

/-- A recursive function that is printed. -/
theorem scope_of_parse_factorial :
    let source := "let rec f n = n eq 0 -> 1 | n * f (n - 1) in Print (f 3)"
    ∃ t, parse unnamed source = .ok t ∧ (∀ x ∈ t.rawFree, ∃ b : Builtin, x = some b.name) ∧
      (∃ s, t.standardize = .ok s ∧ s.free = t.rawFree) ∧
      ∃ o, run 100 source = some o ∧ o.output = "6" ∧
        ∀ x, o.answer ≠ .error (.failure (.fault (.unbound x))) := by
  intro source
  have hfree : (parse unnamed source).toOption.map Tree.rawFree = some {some "Print"} := by
    decide +kernel
  have hrun : (run 100 source).map Outcome.output = some "6" := by decide +kernel
  obtain ⟨t, ht, hprint⟩ := Option.map_eq_some_iff.mp hfree
  obtain ⟨o, ho, houtput⟩ := Option.map_eq_some_iff.mp hrun
  have hparse : parse unnamed source = .ok t := by
    cases h : parse unnamed source with
    | error e => simp [h, Except.toOption] at ht
    | ok t' => simpa [h, Except.toOption] using ht
  have hbuiltin : ∀ x ∈ t.rawFree, ∃ b : Builtin, x = some b.name := by
    rw [hprint]
    exact fun x hx => ⟨.print, Finset.mem_singleton.mp hx⟩
  obtain ⟨hstandard, hsafe⟩ := scope_of_parse hparse
  exact ⟨t, hparse, hbuiltin, hstandard, o, ho, houtput, hsafe hbuiltin 100 o ho⟩

end Program

end Rpal
