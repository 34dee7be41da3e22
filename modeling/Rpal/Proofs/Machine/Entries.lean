/-
# Every loop goes through a function

A run can only go on for long by entering functions.  The *workload* of a state is the number of
items on its control, those in the branches of conditionals included, and what a step makes of it is

    a function is entered              any workload: that of the body comes in
    a recursive function is unrolled   one more, and the next step enters a function or fails
    every other step                   less, as a branch is a part of its conditional

So a state makes at most as many steps as its workload before it enters a function, fails or is over
(`Quiet.le_workload`), and a run without end enters functions again and again.  A program without
functions never has one to enter, and its workload is at most the number of its nodes.
-/
import Rpal.Proofs.Control.Numbering
import Rpal.Proofs.Machine.Lexical

namespace Rpal

namespace Machine

/-! ## 1. Workload -/

/-- The number of items on the control, those in the branches of conditionals included. -/
def workload (m : Machine) : Nat := (Item.entriesAll m.control).length

/-- The next step enters the body of a function: an application finds the function on top of an
argument for its parameter. -/
def Enters (m : Machine) : Prop :=
  ∃ text children arity rest c argument values env,
    m.control = .node .gamma text children arity :: rest ∧
      m.values = .delta c :: argument :: values ∧ parameters c argument = .ok env

/-- `Quiet n m m'`: the machine gets from `m` to `m'` in `n` steps, none of which enters the body of
a function. -/
inductive Quiet : Nat → Machine → Machine → Prop where
  | refl (m : Machine) : Quiet 0 m m
  | head {n : Nat} {m next last : Machine} (busy : m.control ≠ []) (quiet : ¬ m.Enters)
      (step : m.step = .ok next) (rest : Quiet n next last) : Quiet (n + 1) m last

/-- The next instruction is the application of a function, recursive or not. -/
def Applies (m : Machine) : Prop :=
  ∃ text children arity rest c values,
    m.control = .node .gamma text children arity :: rest ∧
      (m.values = .delta c :: values ∨ m.values = .eta c :: values)

end Machine

namespace Item

theorem length_entriesAll_cons (i : Item) (is : List Item) :
    (entriesAll (i :: is)).length = i.entries.length + (entriesAll is).length := by
  rw [entriesAll, List.length_append]

theorem length_entriesAll_append (is js : List Item) :
    (entriesAll (is ++ js)).length = (entriesAll is).length + (entriesAll js).length := by
  rw [entriesAll_append, List.length_append]

theorem length_entriesAll_reverse (is : List Item) :
    (entriesAll is.reverse).length = (entriesAll is).length := by
  induction is with
  | nil => rfl
  | cons i is ih =>
    rw [List.reverse_cons, length_entriesAll_append, ih, length_entriesAll_cons,
      length_entriesAll_cons]
    exact Nat.add_comm _ _

/-- An item counts at least itself. -/
theorem length_entries_pos (i : Item) : 0 < i.entries.length := by
  cases i <;> exact Nat.succ_pos _

/-- A branch is a proper part of its conditional. -/
theorem length_entriesAll_branch {thenBody elseBody body : List Item}
    (h : body = thenBody ∨ body = elseBody) :
    (entriesAll body).length < (Item.beta thenBody elseBody).entries.length := by
  rw [entries, List.length_cons, List.length_append]
  rcases h with rfl | rfl
  · omega
  · omega

end Item

namespace Machine

variable {m next : Machine}

/-! ## 2. Steps -/

/-- A state that is not over has something to do. -/
theorem workload_pos (hbusy : m.control ≠ []) : 0 < m.workload := by
  obtain ⟨i, rest, hc⟩ := List.exists_cons_of_ne_nil hbusy
  rw [workload, hc, Item.length_entriesAll_cons]
  exact Nat.add_pos_left i.length_entries_pos _

/-- **Every other step lowers the workload.** -/
theorem workload_lt_of_step (hbusy : m.control ≠ []) (happlies : ¬ m.Applies)
    (hs : m.step = .ok next) : next.workload < m.workload := by
  obtain ⟨i, rest, hc⟩ := List.exists_cons_of_ne_nil hbusy
  have htaken : ∀ control : List Item, control = rest →
      (Item.entriesAll control).length < m.workload := by
    rintro control rfl
    rw [workload, hc, Item.length_entriesAll_cons]
    exact Nat.lt_add_of_pos_left i.length_entries_pos
  cases effect_of_step hc hs with
  | restore env => exact htaken _ rfl
  | close c => exact htaken _ rfl
  | @branch thenBody elseBody body values v hv hb =>
    have hlt := Item.length_entriesAll_branch (hb.imp And.right And.right)
    have hcontrol : (schedule body { m.take rest with values }).control =
        body.reverse ++ rest := rfl
    rw [workload, workload, hcontrol, hc, Item.length_entriesAll_append,
      Item.length_entriesAll_reverse, Item.length_entriesAll_cons]
    omega
  | call hv henv => exact absurd ⟨_, _, _, _, _, _, hc, .inl hv⟩ happlies
  | unroll hv hn => exact absurd ⟨_, _, _, _, _, _, hc, .inr hv⟩ happlies
  | result hv hy => exact htaken _ rfl

/-- A function that is applied is entered, unless the application fails. -/
theorem enters_of_step {text : Option String} {children rest values : List Item} {arity : Nat}
    {c : Closure} (hc : m.control = .node .gamma text children arity :: rest)
    (hv : m.values = .delta c :: values) (hs : m.step = .ok next) : m.Enters := by
  cases effect_of_step hc hs with
  | call hv' henv => exact ⟨_, _, _, _, _, _, _, _, hc, hv', henv⟩
  | unroll hv' hn => exact absurd (hv.symm.trans hv') (by simp)
  | result hv' hy => exact absurd (hv'.symm.trans hv) (hy.not_call rfl _ _ _)

/-- **Unrolling is the last quiet step**: what is applied next is a function. -/
theorem enters_of_unrolled (happlies : m.Applies) (hquiet : ¬ m.Enters) (hs : m.step = .ok next)
    {last : Machine} (hlast : next.step = .ok last) : next.Enters := by
  obtain ⟨text, children, arity, rest, c, values, hc, hv | hv⟩ := happlies
  · exact absurd (enters_of_step hc hv hs) hquiet
  · have hstep : m.step = gamma { m.take rest with values := .eta c :: values } := by
      rw [step, hc, ← hv]
      rfl
    rw [hstep] at hs
    cases values with
    | nil => cases hs
    | cons argument values =>
      cases hs
      exact enters_of_step rfl rfl hlast

/-! ## 3. Runs -/

namespace Quiet

variable {n : Nat} {last : Machine}

theorem steps (h : Quiet n m last) : Steps n m last := by
  induction h with
  | refl m => exact .refl m
  | head busy _ step _ ih => exact .head busy step ih

theorem tail (h : Quiet n m last) (hbusy : last.control ≠ []) (hquiet : ¬ last.Enters)
    (hs : last.step = .ok next) : Quiet (n + 1) m next := by
  induction h with
  | refl m => exact .head hbusy hquiet hs (.refl next)
  | head busy quiet step _ ih => exact .head busy quiet step (ih hbusy hquiet hs)

/-- **Quiet steps use the workload up**, one item or more with each step; only a last one may be an
unrolling. -/
theorem workload_le (h : Quiet n m last) : n + last.workload ≤ m.workload ∨
    n ≤ m.workload ∧ ∀ s, last.step = .ok s → last.Enters := by
  induction h with
  | refl m => exact .inl (Nat.le_of_eq (Nat.zero_add _))
  | @head n m next last busy quiet step rest ih =>
    by_cases happlies : m.Applies
    · -- nothing quiet comes after an unrolling
      have hnext : ∀ s, next.step = .ok s → next.Enters :=
        fun s hs => enters_of_unrolled happlies quiet step hs
      cases rest with
      | refl => exact .inr ⟨workload_pos busy, hnext⟩
      | head _ quiet' step' _ => exact absurd (hnext _ step') quiet'
    · have hlt := workload_lt_of_step busy happlies step
      rcases ih with hle | ⟨hle, hlast⟩
      · exact .inl (by omega)
      · exact .inr ⟨by omega, hlast⟩

/-- There are at most as many quiet steps in a row as the workload tells. -/
theorem le_workload (h : Quiet n m last) : n ≤ m.workload := by
  rcases h.workload_le with hle | ⟨hle, -⟩
  · omega
  · exact hle

end Quiet

/-- Quiet steps go on until the machine enters a function, fails or is over. -/
theorem exists_quiet_or_stops (m : Machine) : ∀ k, (∃ last, Quiet k m last) ∨
    ∃ n last, n ≤ k ∧ Quiet n m last ∧
      (last.control = [] ∨ (∃ f, Fails last f) ∨ last.Enters) := by
  intro k
  induction k with
  | zero => exact .inl ⟨m, .refl m⟩
  | succ k ih =>
    rcases ih with ⟨last, hlast⟩ | ⟨n, last, hn, hlast, hstops⟩
    · have hstopped : (last.control = [] ∨ (∃ f, Fails last f) ∨ last.Enters) → ∃ n last,
          n ≤ k + 1 ∧ Quiet n m last ∧
            (last.control = [] ∨ (∃ f, Fails last f) ∨ last.Enters) :=
        fun hstops => ⟨k, last, Nat.le_succ k, hlast, hstops⟩
      by_cases hbusy : last.control = []
      · exact .inr (hstopped (.inl hbusy))
      by_cases hquiet : last.Enters
      · exact .inr (hstopped (.inr (.inr hquiet)))
      cases hs : last.step with
      | error f => exact .inr (hstopped (.inr (.inl ⟨f, hbusy, hs⟩)))
      | ok next => exact .inl ⟨next, hlast.tail hbusy hquiet hs⟩
    · exact .inr ⟨n, last, Nat.le_succ_of_le hn, hlast, hstops⟩

/-- **Within its workload** the machine enters a function, fails or is over. -/
theorem exists_stops (m : Machine) : ∃ n last, n ≤ m.workload ∧ Quiet n m last ∧
    (last.control = [] ∨ (∃ f, Fails last f) ∨ last.Enters) := by
  rcases exists_quiet_or_stops m (m.workload + 1) with ⟨last, hlast⟩ | ⟨n, last, -, hlast, hstops⟩
  · exact absurd hlast.le_workload (Nat.not_succ_le_self _)
  · exact ⟨n, last, hlast.le_workload, hlast, hstops⟩

/-- **A run without end** enters functions after any number of steps. -/
theorem exists_enters_of_run_eq_none (hrun : ∀ n, run n m = none) (start : Nat) :
    ∃ n last, start ≤ n ∧ Steps n m last ∧ last.Enters := by
  obtain ⟨middle, hmiddle, -⟩ := steps_of_run_eq_none (hrun start)
  obtain ⟨k, last, -, hquiet, hstops⟩ := exists_stops middle
  have hsteps : Steps (start + k) m last := hmiddle.trans hquiet.steps
  rcases hstops with hover | ⟨f, hfails⟩ | henters
  · have hresult := (run_of_steps hsteps 0).trans (run_of_control_nil hover 0)
    cases (hrun _).symm.trans hresult
  · have hresult := (run_of_steps hsteps 1).trans (run_of_fails hfails 0)
    cases (hrun _).symm.trans hresult
  · exact ⟨start + k, last, Nat.le_add_right start k, hsteps, henters⟩

/-! ## 4. Programs without functions -/

/-- There is no function in the state, neither in what is to be executed nor among the values. -/
structure Functionless (m : Machine) : Prop where
  control : Item.CodeIn (fun _ => False) m.control
  values : ∀ v ∈ m.values, v.All fun _ => False
  bindings : m.env.All fun _ => False

theorem stable_false : Stable fun _ => False := fun _ h => h

theorem not_all_delta {c : Closure} : ¬ (Item.delta c).All fun _ => False :=
  fun h => (Closure.all_iff.mp h).1

theorem not_all_eta {c : Closure} : ¬ (Item.eta c).All fun _ => False :=
  fun h => (Closure.all_iff.mp h).1

theorem Functionless.not_applies (hm : m.Functionless) : ¬ m.Applies := by
  rintro ⟨text, children, arity, rest, c, values, -, hv | hv⟩
  · exact not_all_delta (hm.values (.delta c) (hv ▸ List.mem_cons_self))
  · exact not_all_eta (hm.values (.eta c) (hv ▸ List.mem_cons_self))

/-- **No step brings a function in.** -/
theorem Functionless.step (hm : m.Functionless) (hbusy : m.control ≠ [])
    (hs : m.step = .ok next) : next.Functionless := by
  obtain ⟨i, rest, hc⟩ := List.exists_cons_of_ne_nil hbusy
  have hcontrol := hm.control
  rw [hc] at hcontrol
  obtain ⟨hi, hrest⟩ := hcontrol
  have hnot := hm.not_applies
  cases effect_of_step hc hs with
  | restore env => exact hi.elim
  | close c => exact hi.elim
  | @branch thenBody elseBody body values v hv hb =>
    have hvalues := hm.values
    rw [show m.values = v :: values from hv, List.forall_mem_cons] at hvalues
    have hbody : Item.CodeIn (fun _ => False) body := by
      rcases hb with ⟨-, rfl⟩ | ⟨-, rfl⟩
      · exact hi.1
      · exact hi.2
    refine ⟨Item.codeIn_append.mpr ⟨?_, hrest⟩, hvalues.2, hm.bindings⟩
    rw [Item.codeIn_iff] at hbody ⊢
    exact fun j hj => hbody j (List.mem_reverse.mp hj)
  | call hv henv => exact absurd ⟨_, _, _, _, _, _, hc, .inl hv⟩ hnot
  | unroll hv hn => exact absurd ⟨_, _, _, _, _, _, hc, .inr hv⟩ hnot
  | @result kind text children operands values arity v written hv hy =>
    have hvalues := hm.values
    rw [show m.values = operands ++ values from hv, List.forall_mem_append] at hvalues
    have hchildren : children = [] := hi
    refine ⟨hrest, List.forall_mem_cons.mpr ⟨?_, hvalues.2⟩, hm.bindings⟩
    refine hy.derived _ stable_false hm.bindings fun j hj => ?_
    rw [hchildren, List.nil_append] at hj
    exact hvalues.1 j hj

/-- **A run without functions** uses its workload up, one item or more with each step. -/
theorem Functionless.workload_le {n : Nat} {last : Machine} (hsteps : Steps n m last)
    (hm : m.Functionless) : n + last.workload ≤ m.workload := by
  induction hsteps with
  | refl m => exact Nat.le_of_eq (Nat.zero_add _)
  | @head n m next last busy step _ ih =>
    have hlt := workload_lt_of_step busy hm.not_applies step
    have hle := ih (hm.step busy step)
    omega

/-- A state without functions is over, or fails, within its workload. -/
theorem Functionless.run_workload (hm : m.Functionless) {k : Nat} (hk : m.workload ≤ k) :
    ∃ r, run k m = some r := by
  cases hrun : run k m with
  | some r => exact ⟨r, rfl⟩
  | none =>
    obtain ⟨last, hsteps, hbusy⟩ := steps_of_run_eq_none hrun
    have hle := hm.workload_le hsteps
    have hpos := workload_pos hbusy
    omega

end Machine

namespace Tree

theorem outerAll_eq_nil {place : Place} {ts : List Tree}
    (h : ∀ t ∈ ts, ∀ place, outer place t = []) : ∀ k, outerAll place k ts = [] := by
  induction ts with
  | nil => exact fun _ => rfl
  | cons t ts ih =>
    intro k
    rw [List.forall_mem_cons] at h
    rw [outerAll, h.1, ih h.2]
    rfl

theorem outer_eq_nil (t : Tree) :
    t.Every (fun n => n.kind ≠ .lambda) → ∀ place, outer place t = [] := by
  induction t using listing_induction with
  | lambda text param body arity ih => exact fun h => absurd rfl h.root
  | choice text condition thenPart elsePart arity ihc iht ihe =>
    intro h place
    rw [outer, iht (h.child (by simp)), ihe (h.child (by simp)), ihc (h.child (by simp))]
    rfl
  | node kind text children arity hplain ih =>
    intro h place
    rw [hplain.outer]
    exact outerAll_eq_nil (fun t ht => ih t ht (h.child ht)) 0

theorem length_ownNodesAll_le {place : Place} {ts : List Tree}
    (h : ∀ t ∈ ts, ∀ place, (ownNodes place t).length ≤ t.size) :
    ∀ k, (ownNodesAll place k ts).length ≤ sizeAll ts := by
  induction ts with
  | nil => exact fun _ => Nat.le_refl 0
  | cons t ts ih =>
    intro k
    rw [List.forall_mem_cons] at h
    rw [ownNodesAll, List.length_append, sizeAll]
    exact Nat.add_le_add (h.1 _) (ih h.2 _)

/-- The nodes that stand in no function are nodes of the tree. -/
theorem length_ownNodes_le (t : Tree) : ∀ place, (ownNodes place t).length ≤ t.size := by
  induction t using listing_induction with
  | lambda text param body arity ih =>
    intro place
    exact Tree.size_pos _
  | choice text condition thenPart elsePart arity ihc iht ihe =>
    intro place
    have h₀ := ihc (place ++ [0])
    have h₁ := iht (place ++ [1])
    have h₂ := ihe (place ++ [2])
    simp only [ownNodes, List.length_cons, List.length_append, size, sizeAll]
    omega
  | node kind text children arity hplain ih =>
    intro place
    have hchildren : (ownNodesAll place 0 children).length ≤ sizeAll children :=
      length_ownNodesAll_le ih 0
    rw [hplain.ownNodes, List.length_cons, size]
    omega

section Programs

variable {t : Tree}

/-- A program starts with a workload of at most its nodes. -/
theorem CoreShape.workload_start {P : Tree → Prop} (h : CoreShape P t) :
    (Machine.start (Control.root (t.sites.map (Control.structureOf t.number)))).workload ≤
      t.size := by
  have hbody : Control.bodyOf t.number t.root = t.listing t.number [] := h.code_expression _ _
  rw [Machine.workload, Machine.start_control, Item.length_entriesAll_reverse, hbody,
    entriesAll_listing, List.length_map]
  exact length_ownNodes_le t []

theorem CoreShape.functionless_start {P : Tree → Prop} (h : CoreShape P t)
    (hfree : t.Every fun n => n.kind ≠ .lambda) :
    (Machine.start (Control.root (t.sites.map (Control.structureOf t.number)))).Functionless := by
  have hcode : Item.CodeIn (fun _ => False) (Control.bodyOf t.number t.root) := by
    refine Control.codeIn_expression h [] fun x hx => ?_
    rw [outer_eq_nil t hfree] at hx
    cases hx
  refine ⟨?_, List.forall_mem_nil _, trivial⟩
  rw [Machine.start_control]
  rw [Item.codeIn_iff] at hcode ⊢
  exact fun j hj => hcode j (List.mem_reverse.mp hj)

/-- **A program without functions** is over, or fails, within as many steps as it has nodes. -/
theorem IsCore.run_size (h : t.IsCore) (hfree : t.Every fun n => n.kind ≠ .lambda) :
    ∃ cs r, Control.structures t = .ok cs ∧
      Machine.run t.size (Machine.start (Control.root cs)) = some r := by
  obtain ⟨r, hr⟩ := (h.functionless_start hfree).run_workload h.workload_start
  exact ⟨_, r, (Control.structures_eq_ok_iff h).mpr ⟨h, rfl⟩, hr⟩

end Programs

end Tree

/-- **Every loop goes through a function.**  From any state the machine makes at most as many steps
as its workload before it enters a function, fails or is over; so a run without end enters functions
after any number of steps; and a program without functions is over, or fails, within as many steps
as it has nodes. -/
theorem enters_within_workload :
    (∀ m : Machine, (∀ n last, Machine.Quiet n m last → n ≤ m.workload) ∧
      ∃ n last, n ≤ m.workload ∧ Machine.Quiet n m last ∧
        (last.control = [] ∨ (∃ f, Machine.Fails last f) ∨ last.Enters)) ∧
    (∀ m : Machine, (∀ n, m.run n = none) →
      ∀ start, ∃ n last, start ≤ n ∧ Machine.Steps n m last ∧ last.Enters) ∧
    ∀ t : Tree, t.IsCore → (t.Every fun n => n.kind ≠ .lambda) →
      ∃ cs r, Control.structures t = .ok cs ∧
        Machine.run t.size (Machine.start (Control.root cs)) = some r :=
  ⟨fun m => ⟨fun _ _ h => h.le_workload, Machine.exists_stops m⟩,
    fun _ hrun => Machine.exists_enters_of_run_eq_none hrun, fun _ h hfree => h.run_size hfree⟩

namespace Machine

/-- `Y* (fn f . f)` applied to `dummy`, after `s` steps. -/
def unrolling (s : Nat) : Machine :=
  ⟨[.plain .gamma], [.eta ⟨1, [some "f"], [.node .identifier (some "f") [] 0], Env.empty⟩, .dummy],
    Env.empty, "", s⟩

/-- It is unrolled and entered, and then it is the same again. -/
theorem steps_unrolling (s k : Nat) : Steps (4 * k) (unrolling s) (unrolling (s + 4 * k)) := by
  induction k with
  | zero => exact .refl _
  | succ k ih =>
    have hround : Steps 4 (unrolling (s + 4 * k)) (unrolling (s + 4 * k + 4)) :=
      .head (List.cons_ne_nil _ _) rfl (.head (List.cons_ne_nil _ _) rfl
        (.head (List.cons_ne_nil _ _) rfl (.head (List.cons_ne_nil _ _) rfl (.refl _))))
    exact ih.trans hround

theorem run_unrolling (n : Nat) : run n (unrolling 0) = none :=
  run_eq_none_of_steps (steps_unrolling 0 (n + 1)) (by omega)

end Machine

/-- A run without end, of workload 1 where it is unrolled, and the program `1 + 2`. -/
theorem enters_within_workload_unrolling :
    (Machine.unrolling 0).workload = 1 ∧
      (∀ n last, Machine.Quiet n (Machine.unrolling 0) last → n ≤ 1) ∧
      (∀ n, (Machine.unrolling 0).run n = none) ∧
      (∃ n last, 1000 ≤ n ∧ Machine.Steps n (Machine.unrolling 0) last ∧ last.Enters) ∧
      let t : Tree := .branch .plus [.leaf .integer "1", .leaf .integer "2"]
      t.IsCore ∧ (t.Every fun n => n.kind ≠ .lambda) ∧
        ∃ cs r, Control.structures t = .ok cs ∧
          Machine.run t.size (Machine.start (Control.root cs)) = some r := by
  obtain ⟨hbound, hloop, hprogram⟩ := enters_within_workload
  have hcore : Tree.IsCore (.branch .plus [.leaf .integer "1", .leaf .integer "2"]) := by
    refine .node rfl fun c hc => ?_
    have hleaf : ∀ digits, Tree.IsCore (.leaf .integer digits) :=
      fun digits => .node rfl (List.forall_mem_nil _)
    simp only [List.mem_cons, List.not_mem_nil, or_false] at hc
    rcases hc with rfl | rfl
    · exact hleaf "1"
    · exact hleaf "2"
  have hfree : Tree.Every (fun n => n.kind ≠ .lambda)
      (.branch .plus [.leaf .integer "1", .leaf .integer "2"]) := by
    unfold Tree.Every
    decide
  exact ⟨rfl, (hbound _).1, Machine.run_unrolling, hloop _ Machine.run_unrolling 1000, hcore, hfree,
    hprogram _ hcore hfree⟩

end Rpal
