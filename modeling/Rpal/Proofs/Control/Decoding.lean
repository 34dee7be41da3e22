/-
# Decoding control structures

Control structures say all there is to say about a program: its tree can be read off them.

A body is read as the machine executes it, from its end, but with trees for values: an instruction
takes as many trees from the stack as it has operands, and puts back the node that has them as its
children.  So a body, although its instructions are without children, is uniquely decodable:

    gamma  E1  E2           takes two trees
    tau n  E1 .. En         takes n trees
    beta (T) (F)  C         takes the condition, and has its branches read by themselves
    delta i                 takes none, and becomes the function of structure `i`

A reference is to a later structure, so the structures are read from the last to the first.  Of a
reference only the number counts; the structure that it holds is not looked at.

This needs a tree without anything that its instructions leave out: a text at a function or a
conditional, a number of components, children of a name.  Such a tree is `Exact`.
-/
import Mathlib.Data.Set.List
import Rpal.Proofs.Control.Numbering
import Rpal.Proofs.Grammar.Texts
import Rpal.Proofs.Machine.Effects
import Rpal.Proofs.Standard.Canonical

namespace Rpal

/-! ## 1. Exact trees -/

/-- The instruction of a node takes as many operands as the node has children. -/
theorem Kind.Admits.operands_eq {kind : Kind} {n : Nat} (h : kind.Admits n) :
    kind.operands (if kind = .tau then n else 0) = some n := by
  cases kind
  all_goals first | (obtain rfl := h; rfl) | rfl | cases h

namespace Tree

/-- A name, a tuple of at least two names, or `()`. -/
abbrev BindsNames : Tree → Prop := ShapedParameter fun _ _ => True

/-- A tree of the core language that has texts at its names, integers and strings, and nowhere
else. -/
inductive Exact : Tree → Prop where
  | lambda {param body : Tree} (hp : BindsNames param) (hb : Exact body) :
      Exact (.branch .lambda [param, body])
  | choice {condition thenPart elsePart : Tree} (hc : Exact condition) (ht : Exact thenPart)
      (he : Exact elsePart) : Exact (.branch .conditional [condition, thenPart, elsePart])
  | node {kind : Kind} {text : Option String} {children : List Tree}
      (hk : kind.Admits children.length) (ht : text.isSome ↔ kind.HasText)
      (hc : ∀ c ∈ children, Exact c) : Exact ⟨kind, text, children, 0⟩

theorem Exact.leaf {kind : Kind} (h : kind.HasText) (text : String) : Exact (.leaf kind text) := by
  refine .node ?_ (iff_of_true rfl h) (List.forall_mem_nil _)
  rcases h with rfl | rfl | rfl <;> rfl

theorem Exact.branch {kind : Kind} {ts : List Tree} (hk : kind.Admits ts.length)
    (ht : ¬ kind.HasText) (h : ∀ t ∈ ts, Exact t) : Exact (.branch kind ts) :=
  .node hk (iff_of_false (by simp) ht) h

theorem Exact.coreShape {t : Tree} (h : Exact t) : CoreShape IsParameter t := by
  induction h with
  | lambda hp _ ih => exact .lambda hp.isParameter ih
  | choice _ _ _ ihc iht ihe => exact .choice ihc iht ihe
  | node hk _ _ ih => exact .node hk ih

/-- The outer functions of an exact tree have exact bodies. -/
theorem Exact.of_mem_outer {t : Tree} (h : Exact t) :
    ∀ place, ∀ s ∈ outer place t, BindsNames s.param ∧ Exact s.body := by
  induction h with
  | lambda hp hb =>
    intro place s hs
    rw [Tree.branch, outer, List.mem_singleton] at hs
    subst hs
    exact ⟨hp, hb⟩
  | choice _ _ _ ihc iht ihe =>
    intro place s hs
    rw [Tree.branch, outer, List.mem_append, List.mem_append] at hs
    rcases hs with (hs | hs) | hs
    · exact iht _ s hs
    · exact ihe _ s hs
    · exact ihc _ s hs
  | node hk _ _ ih =>
    intro place
    rw [outer_node hk.ne.1 hk.ne.2]
    exact forall_outerAll (fun t ht k => ih t ht _) 0

/-- All functions of an exact tree have exact bodies. -/
theorem Exact.of_mem_sites {t : Tree} (h : Exact t) :
    ∀ s ∈ t.sites, BindsNames s.param ∧ Exact s.body := by
  refine forall_breadthFirst (fun s hs x hx => hs.2.of_mem_outer _ x hx) fun s hs => ?_
  rw [List.mem_singleton.mp hs]
  exact ⟨.nothing, h⟩

end Tree

namespace Control

open Rpal.Tree

/-! ## 2. The decoder -/

/-- The parameter that binds names. -/
def parameterOf : List Variable → Tree
  | [] => .branch .paren []
  | [x] => ⟨.identifier, x, [], 0⟩
  | xs => .branch .comma (xs.map fun x => ⟨.identifier, x, [], 0⟩)

/-- A function that has been read: the number of its structure, its parameter and its body. -/
structure Decoded where
  index : Nat
  param : Tree
  body : Tree

/-- The function of a number among several. -/
def functionAmong (functions : List Decoded) (index : Nat) : Option Tree :=
  (functions.find? fun f => f.index == index).map fun f => .branch .lambda [f.param, f.body]

/-- The only tree of a stack. -/
def only : List Tree → Option Tree
  | [t] => some t
  | _ => none

mutual

/-- Reads an item, on a stack of trees. -/
def decode (functionOf : Nat → Option Tree) : Item → List Tree → Option (List Tree)
  | .node kind text _ arity, ts => do
    let n ← kind.operands arity
    if n ≤ ts.length then some (⟨kind, text, ts.take n, 0⟩ :: ts.drop n) else none
  | .delta c, ts => do
    let function ← functionOf c.index
    some (function :: ts)
  | .beta thenBody elseBody, condition :: ts => do
    let thenPart ← (decodeAll functionOf thenBody []).bind only
    let elsePart ← (decodeAll functionOf elseBody []).bind only
    some (.branch .conditional [condition, thenPart, elsePart] :: ts)
  | _, _ => none

/-- Reads several items, the last one first. -/
def decodeAll (functionOf : Nat → Option Tree) : List Item → List Tree → Option (List Tree)
  | [], ts => some ts
  | i :: is, ts => (decodeAll functionOf is ts).bind (decode functionOf i)

end

/-- Reads structures, the last one first.  A structure refers only to later ones. -/
def decodeStructures : List Closure → Option (List Decoded)
  | [] => some []
  | c :: later => do
    let functions ← decodeStructures later
    let body ← (decodeAll (functionAmong functions) c.body []).bind only
    some (⟨c.index, parameterOf c.names, body⟩ :: functions)

/-- The tree of a program from its control structures.  That of the program is the first. -/
def decodeProgram (cs : List Closure) : Option Tree :=
  (decodeStructures cs).bind fun functions => functions.head?.map (·.body)

/-! ## 3. Decoding what was built -/

section Decoding

variable {number : Place → Nat} {functionOf : Nat → Option Tree}

/-- The names of a parameter tell which parameter it is. -/
theorem parameterOf_parameterNames {p : Tree} (h : BindsNames p) :
    parameterOf p.parameterNames = p := by
  cases h with
  | nothing => rfl
  | names h =>
    cases h with
    | name => rfl
    | @names xs hn =>
      match xs, hn with
      | x :: y :: xs, _ => simp [parameterNames, parameterOf, branch, leaf]

theorem decodeAll_append (is js : List Item) (ts : List Tree) :
    decodeAll functionOf (is ++ js) ts =
      (decodeAll functionOf js ts).bind (decodeAll functionOf is) := by
  induction is with
  | nil => simp [decodeAll]
  | cons i is ih =>
    rw [List.cons_append, decodeAll, ih, Option.bind_assoc]
    rfl

/-- An instruction takes its children from the stack. -/
theorem decode_instruction {kind : Kind} {children : List Tree}
    (hk : kind.Admits children.length) (text : Option String) (ts : List Tree) :
    decode functionOf (instruction kind text children.length) (children ++ ts) =
      some (⟨kind, text, children, 0⟩ :: ts) := by
  rw [instruction, decode, hk.operands_eq, Option.bind_eq_bind, Option.bind_some, List.take_left,
    List.drop_left, if_pos (by simp)]

/-- `functionOf` knows the functions at hand. -/
def Knows (functionOf : Nat → Option Tree) (number : Place → Nat) (sites : List Site) : Prop :=
  ∀ s ∈ sites, functionOf (number s.place) = some (.branch .lambda [s.param, s.body])

theorem decodeAll_listingAll {place : Place} {ts : List Tree}
    (h : ∀ t ∈ ts, ∀ place, Knows functionOf number (outer place t) → ∀ stack,
      decodeAll functionOf (t.listing number place) stack = some (t :: stack)) :
    ∀ k, Knows functionOf number (outerAll place k ts) → ∀ stack,
      decodeAll functionOf (listingAll number place k ts) stack = some (ts ++ stack) := by
  induction ts with
  | nil => intro k _ stack; rfl
  | cons t ts ih =>
    intro k hf stack
    rw [Knows, outerAll, List.forall_mem_append] at hf
    rw [listingAll, decodeAll_append,
      ih (fun t' ht => h t' (List.mem_cons_of_mem _ ht)) (k + 1) hf.2, Option.bind_some,
      h t List.mem_cons_self _ hf.1]
    rfl

/-- **The listing of a tree** puts the tree on the stack. -/
theorem decodeAll_listing {t : Tree} (h : t.Exact) :
    ∀ place, Knows functionOf number (outer place t) → ∀ stack,
      decodeAll functionOf (t.listing number place) stack = some (t :: stack) := by
  induction h with
  | @lambda param body _ _ _ =>
    intro place hf stack
    have := hf ⟨place ++ [1], param, body⟩ (by simp [branch, outer])
    simp only [branch, listing, decodeAll, decode, this, Option.bind_some, Option.bind_eq_bind]
  | choice _ _ _ ihc iht ihe =>
    intro place hf stack
    rw [Knows, branch, outer, List.forall_mem_append, List.forall_mem_append] at hf
    simp only [branch, listing, decodeAll]
    rw [ihc _ hf.2, Option.bind_some, decode, iht _ hf.1.1, ihe _ hf.1.2]
    rfl
  | node hk _ _ ih =>
    intro place hf stack
    rw [outer_node hk.ne.1 hk.ne.2] at hf
    rw [(isPlain_of_ne hk.ne.1 hk.ne.2 _ _ _).listing, decodeAll, decodeAll_listingAll ih 0 hf,
      Option.bind_some, decode_instruction hk]

/-- What is read off the structure of a function. -/
def decodedOf (number : Place → Nat) (s : Site) : Decoded := ⟨number s.place, s.param, s.body⟩

theorem knows_functionAmong {sites : List Site} (hd : (sites.map fun s => number s.place).Nodup) :
    Knows (functionAmong (sites.map (decodedOf number))) number sites := by
  induction sites with
  | nil => simp [Knows]
  | cons s sites ih =>
    rw [List.map_cons, List.nodup_cons] at hd
    intro x hx
    rcases List.mem_cons.mp hx with rfl | hx
    · simp [functionAmong, decodedOf]
    · have hne : number s.place ≠ number x.place := by
        intro heq
        exact hd.1 (List.mem_map.mpr ⟨x, hx, heq.symm⟩)
      have := ih hd.2 x hx
      simpa [functionAmong, decodedOf, hne] using this

/-- **Reading from the last structure on** knows every function that a body refers to, since a
function comes before those in its body. -/
theorem decodeStructures_breadthFirst {room : Nat} {queue : List Site} (hw : weight queue ≤ room)
    (hd : ((breadthFirst room queue).map fun s => number s.place).Nodup)
    (he : ∀ s ∈ breadthFirst room queue, BindsNames s.param ∧ Exact s.body) :
    decodeStructures ((breadthFirst room queue).map (Site.closure number)) =
      some ((breadthFirst room queue).map (decodedOf number)) := by
  induction room generalizing queue with
  | zero => rfl
  | succ room ih =>
    cases queue with
    | nil => rfl
    | cons s queue =>
      have hw' := weight_queue_step hw
      rw [breadthFirst, List.map_cons, List.nodup_cons] at hd
      rw [breadthFirst, List.forall_mem_cons] at he
      have hinner : Knows (functionAmong ((breadthFirst room (queue ++ s.inner)).map
          (decodedOf number))) number s.inner := by
        intro x hx
        refine knows_functionAmong hd.2 x ?_
        rw [breadthFirst_eq hw']
        exact List.mem_append_left _ (List.mem_append_right _ hx)
      have hbody := decodeAll_listing he.1.2 s.place hinner []
      simp only [breadthFirst, List.map_cons, decodeStructures, ih hw' hd.2 he.2, Site.closure,
        Site.items, hbody, Option.bind_eq_bind, Option.bind_some, only,
        parameterOf_parameterNames he.1.1, decodedOf]

/-- **The tree of a program can be read off its control structures.** -/
theorem decodeProgram_closures {t : Tree} (h : t.Exact) :
    decodeProgram t.closures = some t := by
  have hdecode : decodeStructures t.closures = some (t.sites.map (decodedOf t.number)) :=
    decodeStructures_breadthFirst t.weight_root (nodup_of_numbered (numbered_sites t))
      h.of_mem_sites
  rw [decodeProgram, hdecode, Option.bind_some, sites_eq]
  rfl

theorem structures_of_exact {t : Tree} (h : t.Exact) : structures t = .ok t.closures := by
  refine structures_iff.mpr ⟨fun s hs => ?_, rfl⟩
  have hbody := (h.of_mem_sites s hs).2
  exact (hbody.coreShape.listable_iff s.place).mpr fun x hx =>
    (hbody.of_mem_outer s.place x hx).1.isParameter

/-- **Linearization loses nothing.**  The control structures of an exact tree can be built, the
tree can be read off them, and no other exact tree has the same ones. -/
theorem structures_injective {t : Tree} (h : t.Exact) :
    (∃ cs, structures t = .ok cs ∧ decodeProgram cs = some t) ∧
      ∀ t' : Tree, t'.Exact → structures t' = structures t → t' = t := by
  refine ⟨⟨t.closures, structures_of_exact h, decodeProgram_closures h⟩, fun t' h' heq => ?_⟩
  rw [structures_of_exact h, structures_of_exact h', Except.ok.injEq] at heq
  have hdecode := decodeProgram_closures h'
  rw [heq, decodeProgram_closures h] at hdecode
  exact (Option.some.inj hdecode).symm

theorem exact_nestedFunctions : nestedFunctions.Exact := by
  have hname : ∀ x, Exact (.leaf .identifier x) := Exact.leaf (.inl rfl)
  have hbinds : ∀ x, BindsNames (.leaf .identifier x) := fun x => .names (.name trivial)
  refine .branch trivial (by decide)
    (List.forall_mem_cons.mpr ⟨?_, List.forall_mem_singleton.mpr ?_⟩)
  · exact .lambda (hbinds "a") (.lambda (hbinds "b") (hname "a"))
  · exact .choice (hname "c") (.lambda (hbinds "d") (hname "d"))
      (.branch rfl (by decide) (List.forall_mem_nil _))

/-- The pair of functions is the only tree with its four structures. -/
theorem structures_injective_nested : nestedFunctions.Exact ∧
    (∃ cs, structures nestedFunctions = .ok cs ∧ cs.length = 4 ∧
      decodeProgram cs = some nestedFunctions) ∧
    ∀ t' : Tree, t'.Exact → structures t' = structures nestedFunctions → t' = nestedFunctions := by
  obtain ⟨⟨cs, hcs, hdecode⟩, hunique⟩ := structures_injective exact_nestedFunctions
  refine ⟨exact_nestedFunctions, ⟨cs, hcs, ?_, hdecode⟩, hunique⟩
  rw [structures_of_exact exact_nestedFunctions] at hcs
  cases hcs
  rfl

end Decoding

end Control

namespace Tree

/-! ## 4. Programs -/

theorem IsPattern.exists_name {p : Tree} (h : IsPattern p) (hk : p.kind = .identifier) :
    ∃ x, .leaf .identifier x = p := by
  cases h with
  | name x => exact ⟨x, rfl⟩
  | tuple => cases hk

/-- A pattern that the builder takes is a name or a tuple of names. -/
theorem BindsPattern.bindsNames {p : Tree} (h : BindsPattern p) (hp : p.IsParameter) :
    BindsNames p := by
  rcases h with h | rfl
  · cases h with
    | name x => exact .names (.name trivial)
    | @tuple ps hn h =>
      have hps : ps ∈ Set.range (List.map (leaf .identifier)) := by
        rw [Set.range_list_map]
        exact fun q hq => (h q hq).exists_name (isParameter_comma_iff.mp hp q hq)
      obtain ⟨xs, rfl⟩ := hps
      rw [List.length_map] at hn
      exact .names (.names hn fun _ _ => trivial)
  · exact .nothing

/-- A canonical tree is exact if its control structures can be built. -/
theorem Canonical.exact {t : Tree} (h : Canonical t) (hc : t.IsCore) : Exact t := by
  have hconstants : ∀ k ∈ Kind.constants, ¬ k.HasText := by decide
  have hoperators : ∀ k ∈ Kind.operators, ¬ k.HasText := by decide
  induction h with
  | leaf text hk => exact .leaf hk text
  | constant hk =>
    exact .branch (Kind.admits_of_mem_constants hk) (hconstants _ hk) (List.forall_mem_nil _)
  | @unary kind t hk _ ih =>
    have hadmits : kind.Admits [t].length := by rcases hk with rfl | rfl <;> rfl
    have htext : ¬ kind.HasText := by rcases hk with rfl | rfl <;> decide
    have ht := List.forall_mem_singleton.mp ((isCore_branch_iff hadmits).mp hc)
    exact .branch hadmits htext (List.forall_mem_singleton.mpr (ih ht))
  | operator hk _ _ ihl ihr =>
    obtain ⟨hl, hr⟩ := (isCore_pair_iff hk).mp hc
    exact .branch (Kind.admits_of_mem_operators hk) (hoperators _ hk)
      (List.forall_mem_cons.mpr ⟨ihl hl, List.forall_mem_singleton.mpr (ihr hr)⟩)
  | tau _ _ ih =>
    exact .branch trivial (by decide) fun t ht => ih t ht (isCore_tau_iff.mp hc t ht)
  | choice _ _ _ ihc iht ihe =>
    obtain ⟨hc, ht, he⟩ := isCore_choice_iff.mp hc
    exact .choice (ihc hc) (iht ht) (ihe he)
  | function hp _ ih =>
    obtain ⟨hparam, hbody⟩ := isCore_lambda_iff.mp hc
    exact .lambda (hp.bindsNames hparam) (ih hbody)
  | recursion hp _ ih =>
    obtain ⟨-, hfunction⟩ := (isCore_pair_iff (by decide)).mp hc
    obtain ⟨hparam, hbody⟩ := isCore_lambda_iff.mp hfunction
    refine .branch rfl (by decide) (List.forall_mem_cons.mpr ⟨?_, List.forall_mem_singleton.mpr ?_⟩)
    · exact .branch rfl (by decide) (List.forall_mem_nil _)
    · exact .lambda (BindsPattern.bindsNames (.inl hp) hparam) (ih hbody)

end Tree

namespace Program

open Rpal.Tree

/-- **The standard form of a program** can be read off its control structures. -/
theorem decodeProgram_of_parse {filename source : String} {t s : Tree} {cs : List Closure}
    (h : parse filename source = .ok t) (hs : t.standardize = .ok s)
    (hcs : Control.structures s = .ok cs) : Control.decodeProgram cs = some s := by
  obtain ⟨s', hs', hstandard⟩ := (shaped_of_parse h).standardizes (standardizingRules _)
  obtain rfl : s' = s := by rwa [hs, Except.ok.injEq, eq_comm] at hs'
  have hcore : s'.IsCore :=
    ((Control.structures_eq_ok_iff hstandard.canonical.coreShape).mp hcs).1
  have hexact := hstandard.canonical.exact hcore
  rw [Control.structures_of_exact hexact, Except.ok.injEq] at hcs
  rw [← hcs, Control.decodeProgram_closures hexact]

end Program

end Rpal
