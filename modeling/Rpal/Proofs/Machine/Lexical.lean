/-
# Environments are lexical

In every state of a run, the markers cut the control into the pending instructions of one
function each: of the function that is running, of its caller, of that one's caller, and so on
down to the program.  Each of them has an environment, the current one for the first and that
of the marker above for the others, and its frames bind exactly what the functions around the
body bind in the tree, the outermost first after an empty frame:

    frames of the environment    []  names of f1  ..  names of fn
    functions around the body        f1           ..  fn

So the depth of an environment is the depth of nesting, whatever the depth of recursion
(`Activation.Lexical.depth`), and what a name means can be read off the tree
(`lexical_of_steps`).

The invariant says the same of the environments that functions were made in, in values and in
environments (`LexicalClosure`).  A step either keeps the activations and goes on in the first,
or puts one above them, or takes the first off; `Lexical.step` goes through the effects.
-/
import Rpal.Proofs.Control.Nesting
import Rpal.Proofs.Grammar.Shape
import Rpal.Proofs.Machine.Effects
import Rpal.Proofs.Machine.Steps
import Rpal.Proofs.Evaluation.Standardizing

namespace Rpal

/-! ## 1. Frames -/

namespace Env

/-- One more name in the newest frame. -/
def addName (name : Variable) : List (List Variable) → List (List Variable)
  | [] => [[name]]
  | names :: outer => (names ++ [name]) :: outer

/-- What the frames of an environment bind, the newest frame first. -/
def frames : Env → List (List Variable)
  | .absent => []
  | .frame parent => [] :: parent.frames
  | .binding name _ rest => addName name rest.frames

theorem frames_define (name : Variable) (value : Item) (env : Env) :
    (env.define name value).frames = addName name env.frames := rfl

theorem frames_defineAll {names : List Variable} {values : List Item}
    (h : values.length = names.length) :
    ∀ {env : Env} {own : List Variable} {outer : List (List Variable)},
      env.frames = own :: outer →
      (env.defineAll (names.zip values)).frames = (own ++ names) :: outer := by
  induction names generalizing values with
  | nil =>
    intro env own outer henv
    simpa [defineAll] using henv
  | cons name names ih =>
    intro env own outer henv
    cases values with
    | nil => cases h
    | cons v values =>
      have hnext : (env.define name v).frames = (own ++ [name]) :: outer := by
        rw [frames_define, henv]
        rfl
      have := ih (Nat.succ.inj h) hnext
      simpa [defineAll] using this

/-- **Entering a function** adds one frame with its names. -/
theorem frames_parameters {c : Closure} {argument : Item} {env : Env}
    (h : Machine.parameters c argument = .ok env) : env.frames = c.names :: c.env.frames := by
  unfold Machine.parameters at h
  split at h
  · rename_i hnames
    cases h
    rw [hnames]
    rfl
  · rename_i name hnames
    cases h
    rw [hnames]
    rfl
  · split at h
    · split at h
      · rename_i hlen
        cases h
        have hframe : (Env.frame c.env).frames = [] :: c.env.frames := rfl
        exact frames_defineAll hlen hframe
      · cases h
    · cases h

/-- With an empty outermost frame there are as many frames as are counted. -/
theorem frameCount_eq_length : (env : Env) → env.frames.getLast? = some [] →
    env.frameCount = env.frames.length
  | .absent => fun h => by simp [frames] at h
  | .frame parent => fun h => by
    simp only [frames, frameCount, List.length_cons] at h ⊢
    cases hp : parent.frames with
    | nil =>
      cases parent with
      | absent => rfl
      | frame _ => simp [frames] at hp
      | binding n v rest =>
        simp only [frames] at hp
        cases hr : rest.frames <;> simp [hr, addName] at hp
    | cons own outer =>
      have hlast : parent.frames.getLast? = some [] := by
        rw [hp] at h ⊢
        simpa [List.getLast?_cons_cons] using h
      rw [frameCount_eq_length parent hlast, hp]
  | .binding n v rest => fun h => by
    simp only [frames, frameCount] at h ⊢
    cases hr : rest.frames with
    | nil => simp [hr, addName] at h
    | cons own outer =>
      cases outer with
      | nil => simp [hr, addName] at h
      | cons next outer =>
        have hlast : rest.frames.getLast? = some [] := by
          rw [hr] at h ⊢
          simpa [addName, List.getLast?_cons_cons] using h
        rw [frameCount_eq_length rest hlast, hr]
        rfl

theorem exists_mem_addName {name n : Variable} {fs : List (List Variable)} :
    (∃ names ∈ addName n fs, name ∈ names) ↔ n = name ∨ ∃ names ∈ fs, name ∈ names := by
  cases fs with
  | nil => simp [addName, eq_comm]
  | cons own outer =>
    simp only [addName, List.mem_cons, exists_eq_or_imp, List.mem_append, List.not_mem_nil,
      or_false, @eq_comm _ n name]
    rw [or_assoc, or_left_comm]

/-- **A name is bound exactly if a frame binds it.** -/
theorem isBound_iff (name : Variable) : (env : Env) →
    (env.isBound name = true ↔ ∃ names ∈ env.frames, name ∈ names)
  | .absent => by simp [isBound, binding?, frames]
  | .frame parent => by
    have ih := isBound_iff name parent
    simpa [isBound, binding?, frames] using ih
  | .binding n v rest => by
    have ih := isBound_iff name rest
    rw [frames, exists_mem_addName, ← ih]
    by_cases hn : n = name
    · simp [isBound, binding?, hn]
    · simp [isBound, binding?, hn]

end Env

/-! ## 2. Pending instructions -/

/-- What is left of a body, the next instruction first: some of it is done, and perhaps a branch
was taken in its place. -/
inductive Remaining (body : List Item) : List Item → Prop where
  | all : Remaining body body.reverse
  | next {i : Item} {rest : List Item} (h : Remaining body (i :: rest)) : Remaining body rest
  | branch {thenBody elseBody rest : List Item} {taken : List Item}
      (h : Remaining body (.beta thenBody elseBody :: rest))
      (ht : taken = thenBody ∨ taken = elseBody) : Remaining body (taken.reverse ++ rest)

/-- The pending instructions of a body: what is left of it, or what is left after an application
with the one or two applications that unrolling put in its place. -/
inductive Pending (body : List Item) : List Item → Prop where
  | remaining {rest : List Item} (h : Remaining body rest) : Pending body rest
  | unrolled {text : Option String} {children rest : List Item} {arity k : Nat}
      (h : Remaining body (.node .gamma text children arity :: rest)) (hk : k = 1 ∨ k = 2) :
      Pending body (List.replicate k (.plain .gamma) ++ rest)

theorem Remaining.code {Q : Closure → Prop} {body rest : List Item} (hb : Item.CodeIn Q body)
    (h : Remaining body rest) : Item.CodeIn Q rest := by
  induction h with
  | all => simpa [Item.codeIn_iff] using Item.codeIn_iff.mp hb
  | next _ ih => exact ih.2
  | @branch _ _ _ taken _ ht ih =>
    have htaken : Item.CodeIn Q taken := by
      rcases ht with rfl | rfl
      · exact ih.1.1
      · exact ih.1.2
    refine Item.codeIn_append.mpr ⟨?_, ih.2⟩
    simpa [Item.codeIn_iff] using Item.codeIn_iff.mp htaken

theorem Pending.code {Q : Closure → Prop} {body rest : List Item} (hb : Item.CodeIn Q body)
    (h : Pending body rest) : Item.CodeIn Q rest := by
  cases h with
  | remaining h => exact h.code hb
  | unrolled h _ =>
    refine Item.codeIn_append.mpr ⟨?_, (h.code hb).2⟩
    refine Item.codeIn_iff.mpr fun i hi => ?_
    rw [List.eq_of_mem_replicate hi]
    rfl

/-! ## 3. Lexical functions and activations -/

/-- A function of a tree, made in an environment that binds what the functions around it bind. -/
def Tree.LexicalClosure (t : Tree) (c : Closure) : Prop :=
  ∃ s ∈ t.sites, c = { Control.structureOf t.number s with env := c.env } ∧
    c.env.frames.reverse ++ [c.names] = [] :: t.enclosing s.place

/-- The copy of a lexical function is the function itself. -/
theorem Tree.LexicalClosure.copy {t : Tree} : Stable t.LexicalClosure := by
  rintro c ⟨s, hs, hc, hframes⟩
  have hcopy : c.copy = c := by
    rw [hc]
    simp only [Control.structureOf, Closure.copy, Control.bodyOf, Core.copyAll_code]
  rw [hcopy]
  exact ⟨s, hs, hc, hframes⟩

/-- A function with the environment it runs in and the instructions of it that are pending. -/
structure Activation where
  site : Tree.Site
  env : Env
  segment : List Item

namespace Activation

/-- The control that some activations make: a marker stands in front of each caller. -/
def control (a : Activation) : List Activation → List Item
  | [] => a.segment
  | b :: callers => a.segment ++ .marker b.env :: b.control callers

/-- The activation of a function of a tree, in an environment that is lexical. -/
structure Runs (t : Tree) (a : Activation) : Prop where
  mem : a.site ∈ t.sites
  frames : a.env.frames.reverse = [] :: t.enclosing a.site.place
  values : a.env.All t.LexicalClosure

/-- The pending instructions, except right after unrolling. -/
inductive Waits (t : Tree) (a : Activation) : Prop where
  | remaining (h : Remaining (Control.bodyOf t.number a.site) a.segment)
  | unrolled {text : Option String} {children rest : List Item} {arity : Nat}
      (h : Remaining (Control.bodyOf t.number a.site) (.node .gamma text children arity :: rest))
      (hs : a.segment = .plain .gamma :: rest)

/-- The pending instructions right after unrolling, when the function itself is on top. -/
structure Unrolls (t : Tree) (a : Activation) (values : List Item) : Prop where
  body : ∃ text children arity rest,
    Remaining (Control.bodyOf t.number a.site) (.node .gamma text children arity :: rest) ∧
      a.segment = .plain .gamma :: .plain .gamma :: rest
  top : ∃ c vs, values = .delta c :: vs

theorem control_cons {site : Tree.Site} {env : Env} {i : Item} {segment : List Item}
    (callers : List Activation) :
    control ⟨site, env, i :: segment⟩ callers = i :: control ⟨site, env, segment⟩ callers := by
  cases callers <;> rfl

theorem control_append {site : Tree.Site} {env : Env} {is segment : List Item}
    (callers : List Activation) :
    control ⟨site, env, is ++ segment⟩ callers = is ++ control ⟨site, env, segment⟩ callers := by
  cases callers <;> simp [control]

end Activation

/-- The state of a machine whose environments are lexical. -/
inductive Lexical (t : Tree) (m : Machine) : Prop where
  | intro (a : Activation) (callers : List Activation) (henv : m.env = a.env)
      (hcontrol : m.control = a.control callers) (hruns : ∀ b ∈ a :: callers, b.Runs t)
      (htop : a.Waits t ∨ a.Unrolls t m.values) (hwaits : ∀ b ∈ callers, b.Waits t)
      (hvalues : ∀ v ∈ m.values, v.All t.LexicalClosure)

section Step

variable {t : Tree} {m next : Machine}

namespace Activation

variable {a : Activation}

/-- Pending instructions are instructions of the body and refer to functions in it. -/
theorem code_of_pending (h : t.IsCore) (hr : a.Runs t)
    (hp : Pending (Control.bodyOf t.number a.site) a.segment) :
    Item.CodeIn (fun c => ∃ x ∈ a.site.inner, c = Control.structureOf t.number x) a.segment :=
  hp.code (Control.codeIn_bodyOf h hr.mem fun x hx => ⟨x, hx, rfl⟩)

theorem Waits.pending (hw : a.Waits t) : Pending (Control.bodyOf t.number a.site) a.segment := by
  cases hw with
  | remaining h => exact .remaining h
  | unrolled h hs =>
    rw [hs]
    exact .unrolled (k := 1) h (.inl rfl)

theorem Unrolls.pending {values : List Item} (hu : a.Unrolls t values) :
    Pending (Control.bodyOf t.number a.site) a.segment := by
  obtain ⟨text, children, arity, rest, hrem, hs⟩ := hu.body
  rw [hs]
  exact .unrolled (k := 2) hrem (.inr rfl)

theorem pending_of_top {values : List Item} (htop : a.Waits t ∨ a.Unrolls t values) :
    Pending (Control.bodyOf t.number a.site) a.segment := by
  rcases htop with hw | hu
  · exact hw.pending
  · exact hu.pending

section Top

variable {site : Tree.Site} {env : Env} {i : Item} {rest values : List Item}

/-- When an instruction is taken, the others wait. -/
theorem waits_of_cons
    (htop : Waits t ⟨site, env, i :: rest⟩ ∨ Unrolls t ⟨site, env, i :: rest⟩ values) :
    Waits t ⟨site, env, rest⟩ := by
  rcases htop with (hrem | ⟨hrem, hs⟩) | hu
  · exact .remaining hrem.next
  · cases hs
    exact .remaining hrem.next
  · obtain ⟨text, children, arity, rest', hrem, hs⟩ := hu.body
    cases hs
    exact .unrolled hrem rfl

/-- A branch that is up next is one of the body. -/
theorem remaining_of_beta {thenBody elseBody : List Item}
    (htop : Waits t ⟨site, env, .beta thenBody elseBody :: rest⟩ ∨
      Unrolls t ⟨site, env, .beta thenBody elseBody :: rest⟩ values) :
    Remaining (Control.bodyOf t.number site) (.beta thenBody elseBody :: rest) := by
  rcases htop with (hrem | ⟨hrem, hs⟩) | hu
  · exact hrem
  · cases hs
  · obtain ⟨_, _, _, _, _, hs⟩ := hu.body
    cases hs

/-- An application of a recursive function is one of the body, or stands for one. -/
theorem remaining_of_gamma {text : Option String} {children vs : List Item} {arity : Nat}
    {c : Closure} (htop : Waits t ⟨site, env, .node .gamma text children arity :: rest⟩ ∨
      Unrolls t ⟨site, env, .node .gamma text children arity :: rest⟩ values)
    (hv : values = .eta c :: vs) :
    ∃ text children arity,
      Remaining (Control.bodyOf t.number site) (.node .gamma text children arity :: rest) := by
  rcases htop with (hrem | ⟨hrem, hs⟩) | hu
  · exact ⟨_, _, _, hrem⟩
  · cases hs
    exact ⟨_, _, _, hrem⟩
  · -- right after unrolling the function on top is not recursive
    obtain ⟨c', vs', htop⟩ := hu.top
    cases hv.symm.trans htop

end Top

end Activation

/-- A function that becomes a value is lexical. -/
theorem lexicalClosure_close (h : t.IsCore) {a : Activation} (hr : a.Runs t) {x : Tree.Site}
    (hx : x ∈ a.site.inner) :
    (Item.delta { Control.structureOf t.number x with env := a.env }).All t.LexicalClosure := by
  refine ⟨⟨x, Tree.inner_mem_sites hr.mem hx, rfl, ?_⟩, hr.values⟩
  rw [h.enclosing_inner hr.mem hx]
  simp only [hr.frames]
  rfl

/-- A lexical function that is entered gives a lexical activation. -/
theorem runs_of_parameters {c : Closure} {argument : Item} {env : Env}
    (hc : (Item.delta c).All t.LexicalClosure) (ha : argument.All t.LexicalClosure)
    (henv : Machine.parameters c argument = .ok env) :
    ∃ b : Activation, b.env = env ∧ b.segment = c.body.reverse ∧ b.Runs t ∧ b.Waits t := by
  obtain ⟨⟨s, hs, hcs, hframes⟩, hcenv⟩ := Closure.all_iff.mp hc
  have hbody : c.body = Control.bodyOf t.number s := by
    rw [hcs]
    rfl
  refine ⟨⟨s, env, c.body.reverse⟩, rfl, rfl, ⟨hs, ?_, ?_⟩, ?_⟩
  · rw [Env.frames_parameters henv, List.reverse_cons, hframes]
  · exact Env.All.parameters Tree.LexicalClosure.copy hcenv ha henv
  · rw [hbody]
    exact .remaining .all

/-- A step in which the activation on top goes on, with other instructions and other values. -/
theorem Lexical.go_on {a : Activation} {callers : List Activation} {segment : List Item}
    (hruns : ∀ b ∈ a :: callers, b.Runs t) (hwaits : ∀ b ∈ callers, b.Waits t)
    (henv : next.env = a.env)
    (hcontrol : next.control = Activation.control ⟨a.site, a.env, segment⟩ callers)
    (htop : Activation.Waits t ⟨a.site, a.env, segment⟩ ∨
      Activation.Unrolls t ⟨a.site, a.env, segment⟩ next.values)
    (hvalues : ∀ v ∈ next.values, v.All t.LexicalClosure) : Lexical t next := by
  obtain ⟨hrun, hcallers⟩ := List.forall_mem_cons.mp hruns
  refine ⟨⟨a.site, a.env, segment⟩, callers, henv, hcontrol, ?_, htop, hwaits, hvalues⟩
  exact List.forall_mem_cons.mpr ⟨⟨hrun.mem, hrun.frames, hrun.values⟩, hcallers⟩

/-- **A step keeps environments lexical.** -/
theorem Lexical.step (h : t.IsCore) (hm : Lexical t m) (hbusy : m.control ≠ [])
    (hs : m.step = .ok next) : Lexical t next := by
  obtain ⟨⟨site, env, segment⟩, callers, henv, hcontrol, hruns, htop, hwaits, hvalues⟩ := hm
  obtain rfl : m.env = env := henv
  have hrun := hruns _ List.mem_cons_self
  have hcallers : ∀ b ∈ callers, b.Runs t := fun b hb => hruns b (List.mem_cons_of_mem _ hb)
  cases segment with
  | nil =>
    cases callers with
    | nil => exact absurd hcontrol hbusy
    | cons b callers =>
      -- the body is done, and the caller goes on
      cases Machine.effect_of_step hcontrol hs with
      | restore =>
        exact ⟨b, callers, rfl, rfl, hcallers, .inl (hwaits b List.mem_cons_self),
          fun b' hb => hwaits b' (List.mem_cons_of_mem _ hb), hvalues⟩
  | cons i rest =>
    rw [Activation.control_cons] at hcontrol
    have hcode := Activation.code_of_pending h hrun (Activation.pending_of_top htop)
    have hwait : Activation.Waits t ⟨site, m.env, rest⟩ := Activation.waits_of_cons htop
    cases Machine.effect_of_step hcontrol hs with
    | restore env => exact hcode.1.elim
    | close c =>
      obtain ⟨x, hx, rfl⟩ := hcode.1
      refine Lexical.go_on hruns hwaits rfl rfl (.inl hwait) ?_
      exact List.forall_mem_cons.mpr ⟨lexicalClosure_close h hrun hx, hvalues⟩
    | @branch thenBody elseBody body values v hv hb =>
      have hrem := Activation.remaining_of_beta htop
      have hvs : ∀ w ∈ v :: values, w.All t.LexicalClosure := fun w hw => hvalues w (hv ▸ hw)
      exact Lexical.go_on hruns hwaits rfl (Activation.control_append callers).symm
        (.inl (.remaining (hrem.branch (hb.imp And.right And.right)))) (List.forall_mem_cons.mp hvs).2
    | @call text children values arity c argument env hv henv =>
      have hvs : ∀ w ∈ .delta c :: argument :: values, w.All t.LexicalClosure :=
        fun w hw => hvalues w (hv ▸ hw)
      rw [List.forall_mem_cons, List.forall_mem_cons] at hvs
      obtain ⟨b, hbenv, hbseg, hbruns, hbwaits⟩ := runs_of_parameters hvs.1 hvs.2.1 henv
      refine ⟨b, ⟨site, m.env, rest⟩ :: callers, hbenv.symm, ?_, ?_, .inl hbwaits, ?_, hvs.2.2⟩
      · rw [← hbseg]
        rfl
      · exact List.forall_mem_cons.mpr
          ⟨hbruns, List.forall_mem_cons.mpr ⟨⟨hrun.mem, hrun.frames, hrun.values⟩, hcallers⟩⟩
      · exact List.forall_mem_cons.mpr ⟨hwait, hwaits⟩
    | @unroll text children values arity c hv hn =>
      obtain ⟨text, children, arity, hrem⟩ := Activation.remaining_of_gamma htop hv
      have hvs : ∀ w ∈ .eta c :: values, w.All t.LexicalClosure := fun w hw => hvalues w (hv ▸ hw)
      have hdelta : (Item.delta c.copy).All t.LexicalClosure :=
        Item.All.copy Tree.LexicalClosure.copy (.delta c) (List.forall_mem_cons.mp hvs).1
      have hunrolls : Activation.Unrolls t
          ⟨site, m.env, .plain .gamma :: .plain .gamma :: rest⟩
          (.delta c.copy :: .eta c :: values) :=
        ⟨⟨text, children, arity, rest, hrem, rfl⟩, _, _, rfl⟩
      refine Lexical.go_on hruns hwaits rfl ?_ (.inr hunrolls)
        (List.forall_mem_cons.mpr ⟨hdelta, hvs⟩)
      rw [Activation.control_cons, Activation.control_cons]
      rfl
    | @result kind text children operands values arity v written hv hy =>
      have hvs : ∀ w ∈ operands ++ values, w.All t.LexicalClosure :=
        fun w hw => hvalues w (hv ▸ hw)
      rw [List.forall_mem_append] at hvs
      obtain rfl : children = [] := hcode.1
      have hv' : v.All t.LexicalClosure :=
        hy.derived _ Tree.LexicalClosure.copy hrun.values hvs.1
      exact Lexical.go_on hruns hwaits rfl rfl (.inl hwait)
        (List.forall_mem_cons.mpr ⟨hv', hvs.2⟩)

end Step

/-! ## 4. Runs -/

/-- What the tree tells of an activation. -/
structure Activation.IsLexical (t : Tree) (cs : List Closure) (a : Activation) : Prop where
  mem : a.site ∈ t.root :: Tree.functions [] t
  pending : ∃ c, cs[t.number a.site.place]? = some c ∧ Pending c.body a.segment
  unmarked : ∀ env, .marker env ∉ a.segment
  frames : a.env.frames.reverse = [] :: t.enclosing a.site.place
  own : a.site ≠ t.root → ∃ outer, t.enclosing a.site.place = outer ++ [a.site.param.parameterNames]
  depth : a.env.depth = (t.enclosing a.site.place).length
  isBound : ∀ x, a.env.isBound x = true ↔ ∃ names ∈ t.enclosing a.site.place, x ∈ names

/-- What the machine does with a name that is up next: a name that is bound by one of the
functions around it has a value in the environment, and only another one can be a built-in
function. -/
def Machine.Resolves (m : Machine) (scope : List (List Variable)) : Prop :=
  ∀ x children arity rest, m.control = .node .identifier x children arity :: rest →
    ((∃ names ∈ scope, x ∈ names) →
      ∃ v, m.env.lookup? x = some v ∧ m.step = .ok ((m.take rest).push v)) ∧
    ((¬ ∃ names ∈ scope, x ∈ names) →
      m.step = match x.bind Builtin.ofName? with
        | some _ => .ok ((m.take rest).push (.node .identifier x children arity))
        | none => .error (.fault (.unbound x)))

section Runs

variable {t : Tree}

/-- A run starts with the body of the program. -/
theorem Machine.start_control (t : Tree) :
    (Machine.start (Control.root (t.sites.map (Control.structureOf t.number)))).control =
      (Control.bodyOf t.number t.root).reverse := by
  have hcopy : Item.copyAll (Control.bodyOf t.number t.root) = Control.bodyOf t.number t.root :=
    Core.copyAll_code _
  exact congrArg List.reverse hcopy

theorem lexical_start (t : Tree) :
    Lexical t (Machine.start (Control.root (t.sites.map (Control.structureOf t.number)))) := by
  refine ⟨⟨t.root, Env.empty, _⟩, [], rfl, Machine.start_control t, ?_, .inl (.remaining .all),
    ?_, ?_⟩
  · intro b hb
    rw [List.mem_singleton.mp hb]
    exact ⟨List.mem_cons_self, rfl, trivial⟩
  · exact fun b hb => absurd hb List.not_mem_nil
  · exact fun v hv => absurd hv List.not_mem_nil

/-- What runs lexically is lexical for the tree. -/
theorem Activation.Runs.isLexical (h : t.IsCore) {a : Activation} (hr : a.Runs t)
    (hp : Pending (Control.bodyOf t.number a.site) a.segment) :
    a.IsLexical t (t.sites.map (Control.structureOf t.number)) := by
  have hmem : a.site ∈ t.root :: Tree.functions [] t := t.sites_perm.subset hr.mem
  have hcode := Activation.code_of_pending h hr hp
  have hframes : a.env.frames = (([] : List Variable) :: t.enclosing a.site.place).reverse := by
    rw [← hr.frames, List.reverse_reverse]
  refine ⟨hmem, ⟨_, h.numbers.at_number a.site hmem, hp⟩, ?_, hr.frames, ?_, ?_, ?_⟩
  · intro env henv
    exact (Item.codeIn_iff.mp hcode _ henv).elim
  · intro hne
    obtain ⟨s, hs, hx⟩ := Tree.exists_inner hr.mem hne
    exact ⟨_, h.enclosing_inner hs hx⟩
  · have hlast : a.env.frames.getLast? = some [] := by
      rw [hframes]
      simp
    rw [Env.depth, Env.frameCount_eq_length a.env hlast, hframes]
    simp
  · intro x
    rw [Env.isBound_iff, hframes]
    simp

end Runs

theorem resolves_of_isBound {m : Machine} {scope : List (List Variable)}
    (h : ∀ x, m.env.isBound x = true ↔ ∃ names ∈ scope, x ∈ names) : m.Resolves scope := by
  intro x children arity rest hcontrol
  have hstep : m.step =
      Machine.evalName (.node .identifier x children arity) (m.take rest) := by
    unfold Machine.step
    rw [hcontrol]
    rfl
  have henv : (m.take rest).env.lookup? (Item.node .identifier x children arity).text =
      m.env.lookup? x := rfl
  rw [hstep, Machine.evalName, henv, ← h, ← Env.lookup?_isSome]
  constructor
  · intro hbound
    obtain ⟨v, hv⟩ := Option.isSome_iff_exists.mp hbound
    exact ⟨v, hv, by rw [hv]⟩
  · intro hfree
    rw [Bool.not_eq_true, Option.isSome_eq_false_iff, Option.isNone_iff_eq_none] at hfree
    rw [hfree]
    cases x with
    | none => rfl
    | some name => cases hb : Builtin.ofName? name <;> simp [Machine.builtin?, Item.text, hb]

/-- A program that is built and starts in a state that passes a test. -/
theorem exists_structures (filename source : String) (test : Machine → Bool)
    (h : ((Program.parse filename source).toOption.bind fun raw =>
      raw.standardize.toOption.bind fun t => (Control.structures t).toOption.map fun cs =>
        test (Machine.start (Control.root cs))) = some true) :
    ∃ raw t cs, Program.parse filename source = .ok raw ∧ raw.standardize = .ok t ∧
      Control.structures t = .ok cs ∧ test (Machine.start (Control.root cs)) = true := by
  cases hparse : Program.parse filename source with
  | error e => simp [hparse, Except.toOption] at h
  | ok raw =>
    cases hstandard : raw.standardize with
    | error e => simp [hparse, hstandard, Except.toOption] at h
    | ok t =>
      cases hcs : Control.structures t with
      | error e => simp [hparse, hstandard, hcs, Except.toOption] at h
      | ok cs =>
        refine ⟨raw, t, cs, rfl, hstandard, hcs, ?_⟩
        simpa [hparse, hstandard, hcs, Except.toOption] using h

/-- **Environments are lexical.**  In every state of a run of a program, the markers cut the
control into pending instructions of one function each, and the environment of each binds what
the functions around that one bind in the tree.  Its depth is their number, a name is bound in
it exactly if one of them binds it, and only a name that none of them binds can mean a built-in
function. -/
theorem lexical_of_steps {filename source : String} {raw t : Tree} {cs : List Closure} {n : Nat}
    {m : Machine} (hparse : Program.parse filename source = .ok raw)
    (hstandard : raw.standardize = .ok t) (hcs : Control.structures t = .ok cs)
    (hm : Machine.Steps n (Machine.start (Control.root cs)) m) :
    ∃ (a : Activation) (callers : List Activation), m.env = a.env ∧ m.control = a.control callers ∧
      (∀ b ∈ a :: callers, b.IsLexical t cs) ∧ m.Resolves (t.enclosing a.site.place) := by
  obtain ⟨hcore, rfl⟩ := Tree.IsRaw.structures (Tree.isRaw_of_parse hparse) hstandard hcs
  have hlexical : Lexical t m :=
    hm.invariant (fun m next hm hbusy hs => hm.step hcore hbusy hs) (lexical_start t)
  obtain ⟨a, callers, henv, hcontrol, hruns, htop, hwaits, -⟩ := hlexical
  have ha : a.IsLexical t (t.sites.map (Control.structureOf t.number)) :=
    (hruns a List.mem_cons_self).isLexical hcore (Activation.pending_of_top htop)
  refine ⟨a, callers, henv, hcontrol, List.forall_mem_cons.mpr ⟨ha, fun b hb => ?_⟩, ?_⟩
  · exact (hruns b (List.mem_cons_of_mem _ hb)).isLexical hcore (hwaits b hb).pending
  · refine resolves_of_isBound ?_
    rw [henv]
    exact ha.isBound

/-- A program with an inner definition and a recursive function, in the midst of its calls. -/
theorem lexical_of_steps_recursion : ∃ raw t cs m,
    Program.parse "list"
      "let z = false within rec f (b, r) = b -> f (z, r aug b) | r in f (true, nil)" = .ok raw ∧
    raw.standardize = .ok t ∧ Control.structures t = .ok cs ∧
    Machine.Steps 32 (Machine.start (Control.root cs)) m ∧
    ∃ (a : Activation) (callers : List Activation), m.env = a.env ∧ m.control = a.control callers ∧
      (∀ b ∈ a :: callers, b.IsLexical t cs) ∧ m.Resolves (t.enclosing a.site.place) := by
  obtain ⟨raw, t, cs, hparse, hstandard, hcs, hrun⟩ := exists_structures "list"
    "let z = false within rec f (b, r) = b -> f (z, r aug b) | r in f (true, nil)"
    (fun m => (m.run 32).isNone) (by decide +kernel)
  obtain ⟨m, hm, -⟩ := Machine.steps_of_run_eq_none (Option.isNone_iff_eq_none.mp hrun)
  exact ⟨raw, t, cs, m, hparse, hstandard, hcs, hm, lexical_of_steps hparse hstandard hcs hm⟩

end Rpal
