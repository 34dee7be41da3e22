/-
# Copies in a run

The machine copies the body of the program when it starts, a value when it is bound to a name and
again when the name is looked up, the function that a recursive function unrolls, and what `aug`,
`Conc` and `Identity` pass on.  None of these copies changes anything, since the one thing that a
copy can lose, a text or an arity of a tuple, is nowhere to be lost:

    instructions    a tree without texts at its tuples gives control structures without them
                    (`plainTuples_of_structures`), and the tree of a program is such a tree
    values          a tuple is made by `tau`, by `nil` or by an operation, as its components alone;
                    so a step adds no text to one (`Plain.step`)

Nothing is asked of the environments: what is looked up is a copy, whatever was bound.
-/
import Rpal.Proofs.Control.Listing
import Rpal.Proofs.Environment.Histories
import Rpal.Proofs.Grammar.Texts
import Rpal.Proofs.Machine.Lexical

namespace Rpal

/-! ## 1. Instructions -/

namespace Tree

/-- If the node is a tuple, it has no text. -/
def PlainTuple (n : Tree) : Prop := n.kind = .tuple → n.text = none

theorem every_plainTuple_of_standardize {t s : Tree} (h : t.standardize = .ok s)
    (ht : t.Every PlainTuple) : s.Every PlainTuple :=
  every_of_standardize (fun _ hk _ heq => absurd (heq ▸ hk) (by decide)) (fun _ _ _ _ _ h => h) h ht

/-- What holds of all nodes holds of those in the bodies of the outer functions. -/
theorem every_of_mem_outer {P : Tree → Prop} (t : Tree) :
    t.Every P → ∀ place, ∀ s ∈ outer place t, s.body.Every P := by
  induction t using listing_induction with
  | lambda text param body arity _ =>
    intro h place s hs
    rw [outer, List.mem_singleton] at hs
    subst hs
    exact h.child (List.mem_cons_of_mem _ List.mem_cons_self)
  | choice text condition thenPart elsePart arity ihc iht ihe =>
    intro h place s hs
    rw [outer, List.mem_append, List.mem_append] at hs
    rcases hs with (hs | hs) | hs
    · exact iht (h.child (by simp)) _ s hs
    · exact ihe (h.child (by simp)) _ s hs
    · exact ihc (h.child (by simp)) _ s hs
  | node kind text children arity hplain ih =>
    intro h place
    rw [hplain.outer]
    exact forall_outerAll (fun t ht k => ih t ht (h.child ht) _) 0

/-- What holds of all nodes holds of those in the bodies of all functions. -/
theorem every_of_mem_sites {P : Tree → Prop} {t : Tree} (h : t.Every P) :
    ∀ s ∈ t.sites, s.body.Every P := by
  refine forall_breadthFirst (fun s hs x hx => every_of_mem_outer s.body hs _ x hx) fun s hs => ?_
  rw [List.mem_singleton.mp hs]
  exact h

end Tree

/-- **The tuples of a program**, should there be any in its tree, have no texts. -/
theorem Program.every_plainTuple_of_parse {filename source : String} {t : Tree}
    (h : parse filename source = .ok t) : t.Every Tree.PlainTuple := by
  have hleaf : ∀ kind : Kind, kind.HasText → kind ≠ .tuple := by
    rintro kind (rfl | rfl | rfl) <;> decide
  exact (shaped_of_parse h).every (fun hk _ heq => absurd heq (hleaf _ hk)) fun _ _ _ _ => rfl

namespace Control

open Rpal.Tree

variable {number : Place → Nat}

theorem plainTuples_instruction {kind : Kind} {text : Option String}
    (h : kind = .tuple → text = none) (children : Nat) :
    (instruction kind text children).PlainTuples := by
  refine ⟨fun hk => ⟨h hk, ?_⟩, trivial⟩
  rw [hk]
  rfl

theorem plainTuples_listingAll {place : Place} {ts : List Tree}
    (h : ∀ t ∈ ts, ∀ place, ∀ i ∈ t.listing number place, i.PlainTuples) :
    ∀ k, ∀ i ∈ listingAll number place k ts, i.PlainTuples := by
  induction ts with
  | nil => exact fun _ => List.forall_mem_nil _
  | cons t ts ih =>
    intro k
    rw [List.forall_mem_cons] at h
    rw [listingAll, List.forall_mem_append]
    exact ⟨h.1 _, ih h.2 (k + 1)⟩

/-- The items of a tree have no other tuples than the tree. -/
theorem plainTuples_listing (t : Tree) : t.Every PlainTuple →
    ∀ place, ∀ i ∈ t.listing number place, i.PlainTuples := by
  induction t using listing_induction with
  | lambda text param body arity ih =>
    intro h place
    rw [listing, List.forall_mem_singleton]
    exact Closure.plainTuples_iff.mpr (ih (h.child (by simp)) _)
  | choice text condition thenPart elsePart arity ihc iht ihe =>
    intro h place
    rw [listing, List.forall_mem_cons]
    exact ⟨⟨Item.plainTuplesAll_iff.mpr (iht (h.child (by simp)) _),
      Item.plainTuplesAll_iff.mpr (ihe (h.child (by simp)) _)⟩, ihc (h.child (by simp)) _⟩
  | node kind text children arity hplain ih =>
    intro h place
    rw [hplain.listing, List.forall_mem_cons]
    exact ⟨plainTuples_instruction h.root _,
      plainTuples_listingAll (fun t ht => ih t ht (h.child ht)) 0⟩

/-- **The control structures of a tree** have no other tuples than the tree. -/
theorem plainTuples_of_structures {t : Tree} {cs : List Closure} (hcs : structures t = .ok cs)
    (ht : t.Every PlainTuple) : ∀ c ∈ cs, c.PlainTuples := by
  obtain ⟨-, rfl⟩ := structures_iff.mp hcs
  refine List.forall_mem_map.mpr fun s hs => ?_
  exact Closure.plainTuples_iff.mpr (plainTuples_listing s.body (every_of_mem_sites ht s hs) _)

end Control

/-! ## 2. Results

Whatever the operands are: literals are no tuples, and what an operation passes on it copies. -/

theorem Item.IsLiteral.plainTuples {i : Item} (h : i.IsLiteral) : i.PlainTuples := by
  obtain ⟨l, text, rfl⟩ := h
  exact plainTuples_node (by cases l <;> decide) (List.forall_mem_nil _) _ _

theorem Env.plainTuples_of_lookup {env : Env} {name : Variable} {v : Item}
    (h : env.lookup? name = some v) : v.PlainTuples := by
  obtain ⟨bound, -, rfl⟩ := Option.map_eq_some_iff.mp h
  exact bound.plainTuples_copy

/-- Whatever an operation is given, what it makes of it has plain tuples. -/
theorem Item.Made.plainTuples {operands : List Item} {v : Item} (h : v.Made operands) :
    v.PlainTuples := by
  cases h with
  | written h => exact h.isLiteral.plainTuples
  | copy => exact Item.plainTuples_copy _
  | tuple => exact Item.plainTuples_tuple (List.forall_mem_map.mpr fun c _ => c.plainTuples_copy)

namespace Machine

/-- **A result** has plain tuples, if the instruction and the operands have. -/
theorem Yields.plainTuples {env : Env} {i v : Item} {operands : List Item} {written : String}
    (h : Yields env i operands v written) (hi : i.PlainTuples)
    (hoperands : ∀ o ∈ operands, o.PlainTuples) : v.PlainTuples := by
  cases h with
  | bound h => exact Env.plainTuples_of_lookup h
  | name => exact hi
  | literal => exact hi
  | nil => exact Item.plainTuples_tuple (List.forall_mem_nil _)
  | collect => exact Item.plainTuples_tuple hoperands
  | unary _ h => exact ((UnaryOperator.answers_apply _ _).of_ok h).isLiteral.plainTuples
  | binary _ h => exact ((BinaryOperator.made_apply _ _ _).of_ok h).plainTuples
  | recursive c => exact hoperands (.delta c) (by simp)
  | select h =>
    have htuple := hoperands _ List.mem_cons_self
    exact htuple.children _ ((answers_select _ _).of_ok h)
  | wait =>
    have harguments := forall_arguments Item.PlainTuples.children hoperands
    exact Item.plainTuples_node (by decide) harguments _ _
  | builtin _ _ h => exact ((Builtin.made_apply _ _).of_ok h).plainTuples

/-! ## 3. Steps -/

/-- A state whose tuples, among the instructions and among the values, have components and nothing
else. -/
structure Plain (m : Machine) : Prop where
  control : ∀ i ∈ m.control, i.PlainTuples
  values : ∀ v ∈ m.values, v.PlainTuples

variable {m next : Machine}

/-- **An effect** adds no text to a tuple. -/
theorem Plain.effect (hm : m.Plain) {i : Item} (hi : i.PlainTuples) (h : Effect m i next) :
    next.Plain := by
  obtain ⟨hcontrol, hvalues⟩ := hm
  cases h with
  | restore env => exact ⟨hcontrol, hvalues⟩
  | close c =>
    -- the environment that the function gets has no part in its tuples
    have hbody : ∀ j ∈ c.body, j.PlainTuples := Closure.plainTuples_iff.mp hi
    exact ⟨hcontrol, List.forall_mem_cons.mpr ⟨Closure.plainTuples_iff.mpr hbody, hvalues⟩⟩
  | @branch thenBody elseBody body values v hv hb =>
    rw [hv, List.forall_mem_cons] at hvalues
    have hbody : ∀ j ∈ body, j.PlainTuples := by
      rcases hb with ⟨-, rfl⟩ | ⟨-, rfl⟩
      · exact Item.plainTuplesAll_iff.mp hi.1
      · exact Item.plainTuplesAll_iff.mp hi.2
    refine ⟨List.forall_mem_append.mpr ⟨fun j hj => ?_, hcontrol⟩, hvalues.2⟩
    exact hbody j (List.mem_reverse.mp hj)
  | @call _ _ values _ c argument env hv henv =>
    rw [hv, List.forall_mem_cons, List.forall_mem_cons] at hvalues
    have hbody : ∀ j ∈ c.body, j.PlainTuples := Closure.plainTuples_iff.mp hvalues.1
    refine ⟨List.forall_mem_append.mpr ⟨fun j hj => hbody j (List.mem_reverse.mp hj), ?_⟩,
      hvalues.2.2⟩
    exact List.forall_mem_cons.mpr ⟨trivial, hcontrol⟩
  | @unroll _ _ values _ c hv hn =>
    rw [hv] at hvalues
    have hcopy : (Item.delta c.copy).PlainTuples := c.plainTuples_copy
    have hgamma : (Item.plain .gamma).PlainTuples := ⟨nofun, trivial⟩
    refine ⟨?_, List.forall_mem_cons.mpr ⟨hcopy, hvalues⟩⟩
    exact List.forall_mem_cons.mpr ⟨hgamma, List.forall_mem_cons.mpr ⟨hgamma, hcontrol⟩⟩
  | result hv hy =>
    rw [hv, List.forall_mem_append] at hvalues
    exact ⟨hcontrol, List.forall_mem_cons.mpr ⟨hy.plainTuples hi hvalues.1, hvalues.2⟩⟩

/-- **A step** adds no text to a tuple. -/
theorem Plain.step (hm : m.Plain) (hbusy : m.control ≠ []) (hs : m.step = .ok next) :
    next.Plain := by
  obtain ⟨i, rest, hc⟩ := List.exists_cons_of_ne_nil hbusy
  have hcontrol := hm.control
  rw [hc, List.forall_mem_cons] at hcontrol
  have htaken : (m.take rest).Plain := ⟨hcontrol.2, hm.values⟩
  exact htaken.effect hcontrol.1 (effect_of_step hc hs)

/-- A run starts with a copy, whatever was copied. -/
theorem plain_start (root : Closure) : (start root).Plain := by
  refine ⟨fun i hi => ?_, List.forall_mem_nil _⟩
  have hbody := Item.plainTuplesAll_iff.mp (Item.plainTuplesAll_copyAll root.body)
  exact hbody i (List.mem_reverse.mp hi)

/-- **A run** has no tuple with a text, neither among its instructions nor among its values. -/
theorem plain_of_steps {root : Closure} {n : Nat} (h : Steps n (start root) m) : m.Plain :=
  h.invariant (fun _ _ hm hbusy hs => hm.step hbusy hs) (plain_start root)

end Machine

/-! ## 4. Faithful copies -/

/-- **Copies are faithful.**  An item whose tuples have components and nothing else is equal to its
copy, in every part and at every depth, and no other item is; a value that is bound to a name is
what the name means in that frame.  Whatever the item, a copy shares its environments, is its own
copy, and is printed and named as the item is.  All that programs consist of are such items: the
control structures of a tree, unless a tuple of it has a text, and the instructions and values of
every run. -/
theorem copies_faithful :
    (∀ i : Item, (i.copy = i ↔ i.PlainTuples) ∧ (i.copy.same i = true ↔ i.PlainTuples) ∧
      (i.PlainTuples →
        (∀ (name : Variable) (env : Env), (env.define name i).lookup? name = some i) ∧
        ∀ (f : Forest) (number : Nat) (name : Variable), number < f.frames.length →
          (f.bind number name i).lookup number name = .ok i)) ∧
    (∀ i : Item, (∀ f : Env → Env, (i.mapEnv f).copy = i.copy.mapEnv f) ∧
      i.copy.copy = i.copy ∧ i.copy.print = i.print ∧ i.copy.hasPrint = i.hasPrint ∧
      i.copy.spoken = i.spoken) ∧
    (∀ (t s : Tree) (cs : List Closure), t.Every Tree.PlainTuple → t.standardize = .ok s →
      Control.structures s = .ok cs → ∀ c ∈ cs, (Item.delta c).PlainTuples) ∧
    ∀ (root : Closure) (n : Nat) (m : Machine), Machine.Steps n (Machine.start root) m →
      ∀ i ∈ m.control ++ m.values, i.PlainTuples := by
  refine ⟨fun i => ⟨i.copy_eq_self_iff, ?_, fun hi => ⟨fun name env => ?_, ?_⟩⟩,
    fun i => ⟨fun f => i.copy_mapEnv f, i.copy_copy, i.print_copy, i.hasPrint_copy, i.spoken_copy⟩,
    fun t s cs ht hs hcs => ?_, fun root n m hm => ?_⟩
  · rw [Item.same_iff, Item.copy_eq_self_iff]
  · rw [Env.lookup?_define_self, Item.copy_copy, (Item.copy_eq_self_iff i).mpr hi]
  · intro f number name hnumber
    rw [Forest.lookup_bind_self hnumber, (Item.copy_eq_self_iff i).mpr hi]
  · exact Control.plainTuples_of_structures hcs (Tree.every_plainTuple_of_standardize hs ht)
  · have hplain := Machine.plain_of_steps hm
    exact List.forall_mem_append.mpr ⟨hplain.control, hplain.values⟩

/-- A tuple of a recursive function and the empty tuple.  The environment of the function binds a
tuple with a text, which a copy of that tuple would lose. -/
def nestedValue : Item :=
  .tuple [.eta ⟨2, [some "f"], [.beta [.delta ⟨3, [none], [.plain .nil], .absent⟩]
      [.node .tau none [] 3], .marker .empty],
    .binding (some "x") (.node .tuple (some "t") [] 7) .empty⟩, .tuple []]

theorem copies_faithful_nested : nestedValue.PlainTuples ∧ nestedValue.copy = nestedValue ∧
    (Env.empty.define (some "y") nestedValue).lookup? (some "y") = some nestedValue ∧
    (Forest.bind 0 (some "y") nestedValue ⟨[⟨none, []⟩]⟩).lookup 0 (some "y") = .ok nestedValue ∧
    ∃ raw t cs m,
      Program.parse "list" "let rec f n = n eq 0 -> nil | f (n - 1) aug n in f 3" = .ok raw ∧
      raw.standardize = .ok t ∧ Control.structures t = .ok cs ∧
      Machine.Steps 24 (Machine.start (Control.root cs)) m ∧
      (∀ c ∈ cs, (Item.delta c).copy = .delta c) ∧ ∀ i ∈ m.control ++ m.values, i.copy = i := by
  obtain ⟨hitems, -, hstructures, hruns⟩ := copies_faithful
  have hplain : nestedValue.PlainTuples := by decide +kernel
  obtain ⟨hcopy, -, hbound⟩ := hitems nestedValue
  obtain ⟨hdefine, hbind⟩ := hbound hplain
  obtain ⟨raw, t, cs, hparse, hstandard, hcs, hrun⟩ := exists_structures "list"
    "let rec f n = n eq 0 -> nil | f (n - 1) aug n in f 3"
    (fun m => (m.run 24).isNone) (by decide +kernel)
  obtain ⟨m, hm, -⟩ := Machine.steps_of_run_eq_none (Option.isNone_iff_eq_none.mp hrun)
  refine ⟨hplain, hcopy.mpr hplain, hdefine _ _, hbind _ 0 _ Nat.one_pos, raw, t, cs, m, hparse,
    hstandard, hcs, hm, fun c hc => ?_, fun i hi => ?_⟩
  · have hraw := Program.every_plainTuple_of_parse hparse
    exact (hitems (.delta c)).1.mpr (hstructures raw t cs hraw hstandard hcs c hc)
  · exact (hitems i).1.mpr (hruns _ 24 m hm i hi)

end Rpal
