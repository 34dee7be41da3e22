/-
# Copies

A copy is equal to what was copied, with one exception: the copy of a tuple has its components and
nothing else, so a text or an arity of a tuple gets lost.  No tuple of a program has either.
`PlainTuples` says that none has, at any depth, be it in the components of tuples, the arguments of
functions, or the bodies of control structures; exactly such items are their own copies
(`copy_eq_self_iff`), and all copies are such items (`plainTuples_copy`).

Environments are not copied.  They have no part in `PlainTuples`, so a function that keeps a tuple
with a text in its environment is its own copy all the same; and whatever stands in the place of an
environment stands there in the copy, too (`copy_mapEnv`).
-/
import Rpal.Item.Printer

namespace Rpal

/-! ## 1. Tuples without a text -/

mutual

/-- Every tuple in the item has components and nothing else. -/
def Item.PlainTuples : Item → Prop
  | .node kind text children arity =>
    (kind = .tuple → text = none ∧ arity = 0) ∧ Item.PlainTuplesAll children
  | .delta closure => closure.PlainTuples
  | .beta thenBody elseBody => Item.PlainTuplesAll thenBody ∧ Item.PlainTuplesAll elseBody
  | .eta closure => closure.PlainTuples
  | .marker _ => True

/-- Every tuple in the items has components and nothing else. -/
def Item.PlainTuplesAll : List Item → Prop
  | [] => True
  | i :: is => i.PlainTuples ∧ Item.PlainTuplesAll is

/-- Every tuple in the body has components and nothing else. -/
def Closure.PlainTuples : Closure → Prop
  | ⟨_, _, body, _⟩ => Item.PlainTuplesAll body

end

/-- Side by side: every item. -/
theorem Item.plainTuplesAll_iff {is : List Item} :
    Item.PlainTuplesAll is ↔ ∀ i ∈ is, i.PlainTuples := by
  induction is with
  | nil => simp only [Item.PlainTuplesAll, List.not_mem_nil, false_imp_iff, implies_true]
  | cons i is ih => rw [Item.PlainTuplesAll, ih, List.forall_mem_cons]

/-- A control structure: the items of its body. -/
theorem Closure.plainTuples_iff {c : Closure} :
    c.PlainTuples ↔ ∀ i ∈ c.body, i.PlainTuples := by
  cases c
  exact Item.plainTuplesAll_iff

/-- A node other than a tuple may have a text and an arity. -/
theorem Item.plainTuples_node {kind : Kind} (hk : kind ≠ .tuple) {children : List Item}
    (h : ∀ c ∈ children, c.PlainTuples) (text : Option String) (arity : Nat) :
    (Item.node kind text children arity).PlainTuples :=
  ⟨fun heq => absurd heq hk, plainTuplesAll_iff.mpr h⟩

/-- A tuple that is built from its components has neither a text nor an arity. -/
theorem Item.plainTuples_tuple {components : List Item} (h : ∀ c ∈ components, c.PlainTuples) :
    (Item.tuple components).PlainTuples :=
  ⟨fun _ => ⟨rfl, rfl⟩, plainTuplesAll_iff.mpr h⟩

/-- What holds of a value holds of its components. -/
theorem Item.PlainTuples.children {i : Item} (h : i.PlainTuples) :
    ∀ c ∈ i.children, c.PlainTuples := by
  cases i with
  | node kind text children arity => exact plainTuplesAll_iff.mp h.2
  | _ => exact List.forall_mem_nil _

/-! ## 2. Copies -/

mutual

/-- **An item is its own copy** exactly if its tuples have components and nothing else. -/
theorem Item.copy_eq_self_iff : (i : Item) → (i.copy = i ↔ i.PlainTuples)
  | .node kind text children arity => by
    have hall := Item.copyAll_eq_self_iff children
    by_cases hk : kind = .tuple
    · subst hk
      simp only [Item.copy, if_true, Item.node.injEq, true_and, Item.PlainTuples, forall_const, hall]
      constructor
      · rintro ⟨rfl, h, rfl⟩
        exact ⟨⟨rfl, rfl⟩, h⟩
      · rintro ⟨⟨rfl, rfl⟩, h⟩
        exact ⟨rfl, h, rfl⟩
    · simp only [Item.copy, hk, if_false, Item.node.injEq, true_and, and_true, Item.PlainTuples,
        false_implies, hall]
  | .delta closure => by
    rw [Item.copy, Item.delta.injEq, Closure.copy_eq_self_iff, Item.PlainTuples]
  | .beta thenBody elseBody => by
    rw [Item.copy, Item.beta.injEq, Item.copyAll_eq_self_iff, Item.copyAll_eq_self_iff,
      Item.PlainTuples]
  | .eta closure => by
    rw [Item.copy, Item.eta.injEq, Closure.copy_eq_self_iff, Item.PlainTuples]
  | .marker _ => by simp only [Item.copy, Item.PlainTuples]

theorem Item.copyAll_eq_self_iff : (is : List Item) →
    (Item.copyAll is = is ↔ Item.PlainTuplesAll is)
  | [] => by simp only [Item.copyAll, Item.PlainTuplesAll]
  | i :: is => by
    rw [Item.copyAll, List.cons.injEq, Item.copy_eq_self_iff, Item.copyAll_eq_self_iff,
      Item.PlainTuplesAll]

theorem Closure.copy_eq_self_iff : (c : Closure) → (c.copy = c ↔ c.PlainTuples)
  | ⟨index, names, body, env⟩ => by
    simp only [Closure.copy, Closure.mk.injEq, true_and, and_true, Closure.PlainTuples,
      Item.copyAll_eq_self_iff body]

end

mutual

/-- **The tuples of a copy** have components and nothing else. -/
theorem Item.plainTuples_copy : (i : Item) → i.copy.PlainTuples
  | .node kind text children arity => by
    have hall := Item.plainTuplesAll_copyAll children
    rw [Item.copy]
    split
    · exact ⟨fun _ => ⟨rfl, rfl⟩, hall⟩
    · rename_i hk
      exact ⟨fun heq => absurd heq hk, hall⟩
  | .delta closure => Closure.plainTuples_copy closure
  | .beta thenBody elseBody =>
    ⟨Item.plainTuplesAll_copyAll thenBody, Item.plainTuplesAll_copyAll elseBody⟩
  | .eta closure => Closure.plainTuples_copy closure
  | .marker _ => trivial

theorem Item.plainTuplesAll_copyAll : (is : List Item) → Item.PlainTuplesAll (Item.copyAll is)
  | [] => trivial
  | i :: is => ⟨Item.plainTuples_copy i, Item.plainTuplesAll_copyAll is⟩

theorem Closure.plainTuples_copy : (c : Closure) → c.copy.PlainTuples
  | ⟨_, _, body, _⟩ => Item.plainTuplesAll_copyAll body

end

/-- A second copy makes no difference. -/
theorem Item.copy_copy (i : Item) : i.copy.copy = i.copy :=
  (Item.copy_eq_self_iff i.copy).mpr i.plainTuples_copy

/-! ## 3. Environments -/

mutual

/-- The item with other environments in the places of those that its functions and markers hold. -/
def Item.mapEnv (f : Env → Env) : Item → Item
  | .node kind text children arity => .node kind text (Item.mapEnvAll f children) arity
  | .delta closure => .delta (closure.mapEnv f)
  | .beta thenBody elseBody => .beta (Item.mapEnvAll f thenBody) (Item.mapEnvAll f elseBody)
  | .eta closure => .eta (closure.mapEnv f)
  | .marker env => .marker (f env)

/-- Several items with other environments. -/
def Item.mapEnvAll (f : Env → Env) : List Item → List Item
  | [] => []
  | i :: is => i.mapEnv f :: Item.mapEnvAll f is

/-- The control structure with other environments, its own and those in its body. -/
def Closure.mapEnv (f : Env → Env) : Closure → Closure
  | ⟨index, names, body, env⟩ => ⟨index, names, Item.mapEnvAll f body, f env⟩

end

mutual

/-- **Copies share environments**: the copy has them in their places and looks into none of them. -/
theorem Item.copy_mapEnv (f : Env → Env) : (i : Item) → (i.mapEnv f).copy = i.copy.mapEnv f
  | .node kind text children arity => by
    have hall := Item.copyAll_mapEnvAll f children
    by_cases hk : kind = .tuple
    · simp only [Item.copy, Item.mapEnv, if_pos hk, hall]
    · simp only [Item.copy, Item.mapEnv, if_neg hk, hall]
  | .delta closure => by
    rw [Item.mapEnv, Item.copy, Closure.copy_mapEnv, Item.copy, Item.mapEnv]
  | .beta thenBody elseBody => by
    rw [Item.mapEnv, Item.copy, Item.copyAll_mapEnvAll, Item.copyAll_mapEnvAll, Item.copy,
      Item.mapEnv]
  | .eta closure => by
    rw [Item.mapEnv, Item.copy, Closure.copy_mapEnv, Item.copy, Item.mapEnv]
  | .marker _ => rfl

theorem Item.copyAll_mapEnvAll (f : Env → Env) : (is : List Item) →
    Item.copyAll (Item.mapEnvAll f is) = Item.mapEnvAll f (Item.copyAll is)
  | [] => rfl
  | i :: is => by
    rw [Item.mapEnvAll, Item.copyAll, Item.copy_mapEnv, Item.copyAll_mapEnvAll, Item.copyAll,
      Item.mapEnvAll]

theorem Closure.copy_mapEnv (f : Env → Env) : (c : Closure) →
    (c.mapEnv f).copy = c.copy.mapEnv f
  | ⟨index, names, body, env⟩ => by
    rw [Closure.mapEnv, Closure.copy, Item.copyAll_mapEnvAll, Closure.copy, Closure.mapEnv]

end

/-! ## 4. What is read off a copy -/

namespace Item

/-- A copy has the kind of what was copied. -/
theorem kind_copy (i : Item) : i.copy.kind = i.kind := by
  cases i with
  | node kind text children arity =>
    rw [copy]
    split
    · rename_i hk
      exact hk.symm
    · rfl
  | _ => rfl

/-- Messages name the kind of a copy as that of the item. -/
theorem spoken_copy (i : Item) : i.copy.spoken = i.spoken := congrArg Kind.spoken i.kind_copy

/-- A copy has a printed form if the item has one. -/
theorem hasPrint_copy (i : Item) : i.copy.hasPrint = i.hasPrint := by
  cases i with
  | node kind text children arity =>
    rw [copy]
    split
    · rename_i hk
      rw [hk]
      rfl
    · rfl
  | _ => rfl

/-- Further components that print alike. -/
theorem printRest_map {f : Item → Item} {is : List Item} (h : ∀ i ∈ is, (f i).print = i.print) :
    printRest (is.map f) = printRest is := by
  induction is with
  | nil => rfl
  | cons i is ih =>
    rw [List.forall_mem_cons] at h
    rw [List.map_cons, printRest, printRest, h.1, ih h.2]

/-- A function shows its first name and its number, which its copy has as well. -/
theorem describe_copy (c : Closure) (sort : String) : c.copy.describe sort = c.describe sort := by
  cases c
  rfl

mutual

/-- **A copy prints as the item does.** -/
theorem print_copy : (i : Item) → i.copy.print = i.print
  | .node kind text children arity => by
    have hall := print_copy_of_mem children
    by_cases hk : kind = .tuple
    · subst hk
      rw [copy, if_pos rfl, copyAll_eq_map]
      cases children with
      | nil => rfl
      | cons i is =>
        rw [List.forall_mem_cons] at hall
        simp only [List.map_cons, print, hall.1, printRest_map hall.2]
    · rw [copy, if_neg hk]
      -- only a tuple is printed by its children
      cases kind <;> first | rfl | exact absurd rfl hk
  | .delta closure => describe_copy closure "lambda"
  | .beta _ _ => rfl
  | .eta closure => describe_copy closure "eta"
  | .marker _ => rfl

theorem print_copy_of_mem : (is : List Item) → ∀ i ∈ is, i.copy.print = i.print
  | [] => List.forall_mem_nil _
  | i :: is => List.forall_mem_cons.mpr ⟨print_copy i, print_copy_of_mem is⟩

end

end Item

/-! ## 5. Comparing -/

mutual

/-- **The comparison of two items** finds no difference exactly if there is none. -/
theorem Item.same_iff : (i j : Item) → (i.same j = true ↔ i = j)
  | .node kind text children arity, j => by
    cases j with
    | node kind' text' children' arity' =>
      simp only [Item.same, Bool.and_eq_true, beq_iff_eq, Item.sameAll_iff children,
        Item.node.injEq, and_assoc]
    | _ => simp only [Item.same, Bool.false_eq_true, reduceCtorEq]
  | .delta closure, j => by
    cases j with
    | delta closure' => rw [Item.same, Closure.same_iff closure, Item.delta.injEq]
    | _ => simp only [Item.same, Bool.false_eq_true, reduceCtorEq]
  | .beta thenBody elseBody, j => by
    cases j with
    | beta thenBody' elseBody' =>
      rw [Item.same, Bool.and_eq_true, Item.sameAll_iff thenBody, Item.sameAll_iff elseBody,
        Item.beta.injEq]
    | _ => simp only [Item.same, Bool.false_eq_true, reduceCtorEq]
  | .eta closure, j => by
    cases j with
    | eta closure' => rw [Item.same, Closure.same_iff closure, Item.eta.injEq]
    | _ => simp only [Item.same, Bool.false_eq_true, reduceCtorEq]
  | .marker env, j => by
    cases j with
    | marker env' => rw [Item.same, Env.same_iff env, Item.marker.injEq]
    | _ => simp only [Item.same, Bool.false_eq_true, reduceCtorEq]

/-- Items side by side, in order and in number. -/
theorem Item.sameAll_iff : (is js : List Item) → (Item.sameAll is js = true ↔ is = js)
  | [], js => by
    cases js with
    | nil => simp only [Item.sameAll]
    | cons => simp only [Item.sameAll, Bool.false_eq_true, reduceCtorEq]
  | i :: is, js => by
    cases js with
    | nil => simp only [Item.sameAll, Bool.false_eq_true, reduceCtorEq]
    | cons j js =>
      rw [Item.sameAll, Bool.and_eq_true, Item.same_iff i, Item.sameAll_iff is, List.cons.injEq]

theorem Closure.same_iff : (c d : Closure) → (c.same d = true ↔ c = d)
  | ⟨index, names, body, env⟩, ⟨index', names', body', env'⟩ => by
    simp only [Closure.same, Bool.and_eq_true, beq_iff_eq, Item.sameAll_iff body, Env.same_iff env,
      Closure.mk.injEq, and_assoc]

/-- Environments, frame by frame and binding by binding. -/
theorem Env.same_iff : (e e' : Env) → (e.same e' = true ↔ e = e')
  | .absent, e' => by
    cases e' with
    | absent => simp only [Env.same]
    | _ => simp only [Env.same, Bool.false_eq_true, reduceCtorEq]
  | .frame parent, e' => by
    cases e' with
    | frame parent' => rw [Env.same, Env.same_iff parent, Env.frame.injEq]
    | _ => simp only [Env.same, Bool.false_eq_true, reduceCtorEq]
  | .binding name value rest, e' => by
    cases e' with
    | binding name' value' rest' =>
      simp only [Env.same, Bool.and_eq_true, beq_iff_eq, Item.same_iff value, Env.same_iff rest,
        Env.binding.injEq, and_assoc]
    | _ => simp only [Env.same, Bool.false_eq_true, reduceCtorEq]

end

instance : DecidableEq Item := fun i j => decidable_of_iff _ (Item.same_iff i j)

instance (i : Item) : Decidable i.PlainTuples := decidable_of_iff _ i.copy_eq_self_iff

end Rpal
