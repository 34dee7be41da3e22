/-
# Listing a tree

The builder walks through the body of a function, emits an item for every node and meets the
functions on its way; their bodies are walked through later.  For any tree, however malformed, all of
this comes to two things.

* `Listable` says which bodies can be walked through: a function has a parameter of the language and
  a body, and a conditional has its three parts.
* `listing` is the list of items, where a function is the reference to its own structure:

      fn p . E          delta i                  structure i: the names of p, the listing of E
      C -> T | F        beta (T) (F)  C
      other nodes       the instruction of the node, then its children

Building succeeds exactly if all bodies can be walked through, and then structure `i` is that of
function `i`, in breadth-first order (`structures_iff`).
-/
import Rpal.Proofs.Control.Places

namespace Rpal

namespace Tree

/-- A tree that the builder can walk through, up to the bodies of the functions in it. -/
inductive Listable : Tree → Prop where
  | lambda {text : Option String} {param body : Tree} {arity : Nat} (hp : param.IsParameter) :
      Listable ⟨.lambda, text, [param, body], arity⟩
  | choice {text : Option String} {condition thenPart elsePart : Tree} {arity : Nat}
      (hc : Listable condition) (ht : Listable thenPart) (he : Listable elsePart) :
      Listable ⟨.conditional, text, [condition, thenPart, elsePart], arity⟩
  | node {kind : Kind} {text : Option String} {children : List Tree} {arity : Nat}
      (h₁ : kind ≠ .lambda) (h₂ : kind ≠ .conditional) (hc : ∀ c ∈ children, Listable c) :
      Listable ⟨kind, text, children, arity⟩

mutual

/-- The items of a tree at a place, with the bodies of its functions filled in. -/
def listing (number : Place → Nat) (place : Place) : Tree → List Item
  | ⟨kind, text, children, _⟩ =>
    match kind, children with
    | .lambda, [param, body] =>
      [.delta ⟨number (place ++ [1]), param.parameterNames, listing number (place ++ [1]) body,
        .absent⟩]
    | .conditional, [condition, thenPart, elsePart] =>
      .beta (listing number (place ++ [1]) thenPart) (listing number (place ++ [2]) elsePart) ::
        listing number (place ++ [0]) condition
    | kind, children =>
      Control.instruction kind text children.length :: listingAll number place 0 children

/-- The items of neighbours, the first of which is child `k`. -/
def listingAll (number : Place → Nat) (place : Place) : Nat → List Tree → List Item
  | _, [] => []
  | k, t :: ts => listing number (place ++ [k]) t ++ listingAll number place (k + 1) ts

end

/-- The items of the body of a function. -/
def Site.items (number : Place → Nat) (s : Site) : List Item := s.body.listing number s.place

/-- The control structure of a function. -/
def Site.closure (number : Place → Nat) (s : Site) : Closure :=
  ⟨number s.place, s.param.parameterNames, s.items number, .absent⟩

/-- The control structures of a program, that of the program first. -/
def closures (t : Tree) : List Closure := t.sites.map (Site.closure t.number)

/-- A plain node is listed as its instruction with its children behind it. -/
theorem IsPlain.listing {kind : Kind} {text : Option String} {children : List Tree} {arity : Nat}
    (h : IsPlain ⟨kind, text, children, arity⟩) (number : Place → Nat) (place : Place) :
    listing number place ⟨kind, text, children, arity⟩ =
      Control.instruction kind text children.length :: listingAll number place 0 children := by
  unfold Tree.listing
  split
  · cases h
  · cases h
  · rfl

/-- A plain node can be walked through if it is neither a function nor a conditional at all. -/
theorem IsPlain.listable_iff {kind : Kind} {text : Option String} {children : List Tree}
    {arity : Nat} (h : IsPlain ⟨kind, text, children, arity⟩) :
    Listable ⟨kind, text, children, arity⟩ ↔
      (kind ≠ .lambda ∧ kind ≠ .conditional) ∧ ∀ c ∈ children, Listable c := by
  constructor
  · intro hl
    cases hl with
    | lambda => cases h
    | choice => cases h
    | node h₁ h₂ hc => exact ⟨⟨h₁, h₂⟩, hc⟩
  · rintro ⟨⟨h₁, h₂⟩, hc⟩
    exact .node h₁ h₂ hc

/-- A function is walked past if its parameter can be bound; its body is left for later. -/
theorem listable_lambda_iff {text : Option String} {param body : Tree} {arity : Nat} :
    Listable ⟨.lambda, text, [param, body], arity⟩ ↔ param.IsParameter := by
  constructor
  · intro h
    cases h with
    | lambda hp => exact hp
    | node h₁ => exact absurd rfl h₁
  · exact .lambda

theorem listable_choice_iff {text : Option String} {condition thenPart elsePart : Tree}
    {arity : Nat} : Listable ⟨.conditional, text, [condition, thenPart, elsePart], arity⟩ ↔
      (Listable thenPart ∧ Listable elsePart) ∧ Listable condition := by
  constructor
  · intro h
    cases h with
    | choice hc ht he => exact ⟨⟨ht, he⟩, hc⟩
    | node _ h₂ => exact absurd rfl h₂
  · rintro ⟨⟨ht, he⟩, hc⟩
    exact .choice hc ht he

end Tree

namespace Control

/-! ## 1. What the builder does -/

/-- `Builds x met a met'`: the builder `x` yields `a` and has met `met'` where it had met `met`. -/
def Builds {α : Type} (x : Builder α) (met : List Pending) (a : α) (met' : List Pending) : Prop :=
  x.run.run met = (.ok a, met')

section Builders

variable {α β : Type} {met met' : List Pending}

/-- A builder behind another one: the second begins with what the first one has met. -/
theorem builds_bind {x : Builder α} {f : α → Builder β} {b : β} :
    Builds (x >>= f) met b met' ↔ ∃ a m, Builds x met a m ∧ Builds (f a) m b met' := by
  have hbind : (x >>= f).run.run met =
      (fun r : Except StandardizeError α × List Pending =>
        match r with
        | (.ok a, m) => (f a).run.run m
        | (.error e, m) => (.error e, m)) (x.run.run met) := by
    show StateT.bind x (ExceptT.bindCont f) met = _
    simp only [StateT.bind, bind]
    rcases hx : x.run.run met with ⟨_ | a, m⟩
    · rw [show x met = (.error _, m) from hx]
      rfl
    · rw [show x met = (.ok a, m) from hx]
      rfl
  unfold Builds
  rw [hbind]
  constructor
  · intro h
    rcases hx : x.run.run met with ⟨e | a, m⟩
    · rw [hx] at h
      cases h
    · rw [hx] at h
      exact ⟨a, m, rfl, h⟩
  · rintro ⟨a, m, hx, hf⟩
    rw [hx]
    exact hf

theorem builds_pure {a b : α} : Builds (pure a) met b met' ↔ b = a ∧ met' = met := by
  show ((Except.ok a : Except StandardizeError α), met) = (.ok b, met') ↔ _
  rw [Prod.mk.injEq, Except.ok.injEq, eq_comm, @eq_comm _ met]

theorem not_builds_throw {e : StandardizeError} {b : α} : ¬ Builds (throw e) met b met' := by
  show ¬ ((Except.error e : Except StandardizeError α), met) = (.ok b, met')
  simp

theorem builds_liftExcept {r : Except StandardizeError α} {b : α} :
    Builds (liftExcept r) met b met' ↔ r = .ok b ∧ met' = met := by
  cases r with
  | ok a =>
    rw [Except.ok.injEq, @eq_comm _ a]
    exact builds_pure
  | error e =>
    simp only [reduceCtorEq, false_and, iff_false]
    exact not_builds_throw

/-- A function gets the next number. -/
theorem builds_meet {names : List Variable} {start : Tree} {i : Nat} :
    Builds (meet names start) met i met' ↔ i = met.length ∧ met' = met ++ [⟨names, start⟩] := by
  show ((Except.ok met.length : Except StandardizeError Nat), met ++ [⟨names, start⟩]) =
    (.ok i, met') ↔ _
  rw [Prod.mk.injEq, Except.ok.injEq, eq_comm, @eq_comm _ _ met']

end Builders

/-! ## 2. The names of parameters -/

/-- The members of a tuple have to be names, and then they are what is bound. -/
theorem patternNames_iff {ts : List Tree} {names : List Variable} :
    patternNames ts = .ok names ↔
      (∀ t ∈ ts, t.kind = .identifier) ∧ names = ts.map (·.text) := by
  induction ts generalizing names with
  | nil => simp [patternNames, eq_comm]
  | cons t ts ih =>
    by_cases hk : t.kind = .identifier
    · simp only [patternNames, hk, if_true, bind_eq_ok_iff, ih, List.forall_mem_cons, true_and,
        List.map_cons, Except.ok.injEq]
      constructor
      · rintro ⟨_, ⟨hts, rfl⟩, rfl⟩
        exact ⟨hts, rfl⟩
      · rintro ⟨hts, rfl⟩
        exact ⟨_, ⟨hts, rfl⟩, rfl⟩
    · simp [patternNames, hk]

/-- **The builder takes exactly the parameters of the language**, and their names. -/
theorem boundNames_iff {param : Tree} {names : List Variable} :
    boundNames param = .ok names ↔ param.IsParameter ∧ names = param.parameterNames := by
  obtain ⟨kind, text, children, arity⟩ := param
  constructor
  · intro h
    cases kind with
    | identifier =>
      rw [boundNames, Except.ok.injEq] at h
      exact ⟨.name _ _ _, h.symm⟩
    | comma =>
      obtain ⟨hc, rfl⟩ := patternNames_iff.mp h
      exact ⟨.names _ _ _ hc, rfl⟩
    | paren =>
      rw [boundNames, Except.ok.injEq] at h
      exact ⟨.nothing _ _ _, h.symm⟩
    | _ => cases h
  · rintro ⟨h, rfl⟩
    cases h with
    | name => rfl
    | names _ _ _ hc => exact patternNames_iff.mpr ⟨hc, rfl⟩
    | nothing => rfl

/-! ## 3. Bodies -/

/-- A function as the builder meets it. -/
def pendingOf (s : Tree.Site) : Pending := ⟨s.param.parameterNames, s.body⟩

/-- The items of a body before bodies are filled in. -/
def emptied (items : List Item) : List Item := fillAll (fun _ => []) items

/-- Consecutive functions have consecutive numbers from `k` on. -/
def Numbered (number : Place → Nat) (k : Nat) (sites : List Tree.Site) : Prop :=
  ∀ j s, sites[j]? = some s → number s.place = k + j

section Bodies

open Rpal.Tree

variable {number : Place → Nat}

theorem fillAll_append (bodyOf : Nat → List Item) (is js : List Item) :
    fillAll bodyOf (is ++ js) = fillAll bodyOf is ++ fillAll bodyOf js := by
  induction is with
  | nil => rfl
  | cons i is ih => simp [fillAll, ih]

/-- Numbers go on where those of the functions in front end. -/
theorem numbered_append {k : Nat} {xs ys : List Site} (h : Numbered number k (xs ++ ys)) :
    Numbered number k xs ∧ Numbered number (k + xs.length) ys := by
  constructor
  · intro j s hj
    have hlt := (List.getElem?_eq_some_iff.mp hj).1
    exact h j s (by rw [List.getElem?_append_left hlt, hj])
  · intro j s hj
    rw [h (xs.length + j) s (by rw [List.getElem?_append_right (by omega)]; simpa using hj)]
    omega

/-- The numbers of consecutive functions. -/
theorem map_number_of_numbered {k : Nat} {sites : List Site} (h : Numbered number k sites) :
    sites.map (fun s => number s.place) = List.range' k sites.length := by
  apply List.ext_getElem?
  intro i
  rw [List.getElem?_map]
  cases hi : sites[i]? with
  | none =>
    rw [List.getElem?_eq_none_iff] at hi
    simp [hi]
  | some s =>
    have hlt := (List.getElem?_eq_some_iff.mp hi).1
    simp [h i s hi, hlt]

theorem linearize_node {kind : Kind} (h₁ : kind ≠ .lambda) (h₂ : kind ≠ .conditional)
    (text : Option String) (children : List Tree) (arity : Nat) :
    linearize ⟨kind, text, children, arity⟩ = (do
      let rest ← linearizeAll children
      pure (instruction kind text children.length :: rest)) := by
  cases kind <;> first | rfl | contradiction

/-- A function or a conditional without its parts cannot be walked through. -/
theorem not_builds_linearize {kind : Kind} (hk : kind = .lambda ∨ kind = .conditional)
    {text : Option String} {children : List Tree} {arity : Nat}
    (h : IsPlain ⟨kind, text, children, arity⟩) {met met' : List Pending} {items : List Item} :
    ¬ Builds (linearize ⟨kind, text, children, arity⟩) met items met' := by
  have hthrow : ∃ e, linearize ⟨kind, text, children, arity⟩ = throw e := by
    rcases hk with rfl | rfl
    · match children, h with
      | [], _ | [_], _ | _ :: _ :: _ :: _, _ => exact ⟨.lambdaParts, rfl⟩
      | [_, _], h => cases h
    · match children, h with
      | [], _ | [_], _ | [_, _], _ | _ :: _ :: _ :: _ :: _, _ => exact ⟨.conditionalParts, rfl⟩
      | [_, _, _], h => cases h
  obtain ⟨e, he⟩ := hthrow
  rw [he]
  exact not_builds_throw

theorem fill_instruction (bodyOf : Nat → List Item) (kind : Kind) (text : Option String)
    (n : Nat) : fill bodyOf (instruction kind text n) = instruction kind text n := rfl

/-- Children are walked through one after another, and the functions they meet come in this order.
-/
theorem linearizeAll_iff {place : Place} {ts : List Tree}
    (h : ∀ t ∈ ts, ∀ place met items met', Numbered number met.length (outer place t) →
      (Builds (linearize t) met items met' ↔ t.Listable ∧
        items = emptied (t.listing number place) ∧ met' = met ++ (outer place t).map pendingOf)) :
    ∀ k met items met', Numbered number met.length (outerAll place k ts) →
      (Builds (linearizeAll ts) met items met' ↔ (∀ t ∈ ts, t.Listable) ∧
        items = emptied (listingAll number place k ts) ∧
        met' = met ++ (outerAll place k ts).map pendingOf) := by
  induction ts with
  | nil =>
    intro k met items met' _
    simp only [linearizeAll, builds_pure, outerAll, listingAll, List.map_nil, List.append_nil,
      List.not_mem_nil, false_imp_iff, implies_true, true_and]
    rfl
  | cons t ts ih =>
    intro k met items met' hn
    obtain ⟨hn₁, hn₂⟩ := numbered_append hn
    have hrest := ih (fun t' ht => h t' (List.mem_cons_of_mem _ ht)) (k + 1)
    have hn₃ : Numbered number (met ++ (outer (place ++ [k]) t).map pendingOf).length
        (outerAll place (k + 1) ts) := by
      simpa using hn₂
    simp only [linearizeAll, builds_bind, builds_pure, outerAll, listingAll, emptied,
      fillAll_append, List.map_append, List.forall_mem_cons]
    constructor
    · rintro ⟨is, m, hi, js, m', hj, rfl, rfl⟩
      obtain ⟨hp, rfl, rfl⟩ := (h t List.mem_cons_self _ _ _ _ hn₁).mp hi
      obtain ⟨hp', rfl, rfl⟩ := (hrest _ _ _ hn₃).mp hj
      exact ⟨⟨hp, hp'⟩, rfl, by rw [List.append_assoc]⟩
    · rintro ⟨⟨hp, hp'⟩, rfl, rfl⟩
      refine ⟨_, _, (h t List.mem_cons_self _ _ _ _ hn₁).mpr ⟨hp, rfl, rfl⟩, _, _,
        (hrest _ _ _ hn₃).mpr ⟨hp', rfl, rfl⟩, rfl, ?_⟩
      rw [List.append_assoc]

/-- **The items of a tree.**  The builder can walk through the tree exactly if it is listable; it
emits the items of the listing and meets the outer functions. -/
theorem linearize_iff (t : Tree) : ∀ place met items met',
    Numbered number met.length (outer place t) →
    (Builds (linearize t) met items met' ↔ t.Listable ∧
      items = emptied (t.listing number place) ∧ met' = met ++ (outer place t).map pendingOf) := by
  -- along the builder's own way through the tree, with whatever it has met so far
  induction t using listing_induction with
  | lambda text param body arity ih =>
    intro place met items met' hn
    have hnum : number (place ++ [1]) = met.length := hn 0 _ rfl
    have hlin : linearize ⟨.lambda, text, [param, body], arity⟩ = (do
        let names ← liftExcept (boundNames param)
        let index ← meet names body
        pure [reference index names]) := rfl
    simp only [hlin, builds_bind, builds_liftExcept, builds_meet, builds_pure, boundNames_iff,
      listable_lambda_iff]
    constructor
    · rintro ⟨names, m, ⟨⟨hparam, rfl⟩, rfl⟩, i, m', ⟨rfl, rfl⟩, rfl, rfl⟩
      refine ⟨hparam, ?_, rfl⟩
      simp [listing, emptied, fillAll, fill, reference, hnum]
    · rintro ⟨hparam, rfl, rfl⟩
      refine ⟨_, _, ⟨⟨hparam, rfl⟩, rfl⟩, _, _, ⟨rfl, rfl⟩, ?_, rfl⟩
      simp [listing, emptied, fillAll, fill, reference, hnum]
  | choice text condition thenPart elsePart arity ihc iht ihe =>
    intro place met items met' hn
    have hlin : linearize ⟨.conditional, text, [condition, thenPart, elsePart], arity⟩ = (do
        let thenBody ← linearize thenPart
        let elseBody ← linearize elsePart
        let rest ← linearize condition
        pure (.beta thenBody elseBody :: rest)) := rfl
    have hout : outer place ⟨.conditional, text, [condition, thenPart, elsePart], arity⟩ =
        outer (place ++ [1]) thenPart ++ outer (place ++ [2]) elsePart ++
          outer (place ++ [0]) condition := rfl
    -- the branches are walked through in front of the condition, so they are numbered in front
    rw [hout] at hn ⊢
    obtain ⟨hn₁₂, hn₀⟩ := numbered_append hn
    obtain ⟨hn₁, hn₂⟩ := numbered_append hn₁₂
    simp only [hlin, builds_bind, builds_pure, listing, emptied, fillAll, fill, List.map_append,
      listable_choice_iff]
    constructor
    · rintro ⟨ts, m₁, h₁, es, m₂, h₂, cs, m₀, h₀, rfl, rfl⟩
      obtain ⟨hp₁, rfl, rfl⟩ := (iht _ _ _ _ hn₁).mp h₁
      obtain ⟨hp₂, rfl, rfl⟩ := (ihe _ _ _ _ (by simpa using hn₂)).mp h₂
      obtain ⟨hp₀, rfl, rfl⟩ := (ihc _ _ _ _ (by simpa [Nat.add_assoc] using hn₀)).mp h₀
      exact ⟨⟨⟨hp₁, hp₂⟩, hp₀⟩, rfl, by simp only [List.append_assoc]⟩
    · rintro ⟨⟨⟨hp₁, hp₂⟩, hp₀⟩, rfl, rfl⟩
      refine ⟨_, _, (iht _ _ _ _ hn₁).mpr ⟨hp₁, rfl, rfl⟩, _, _,
        (ihe _ _ _ _ (by simpa using hn₂)).mpr ⟨hp₂, rfl, rfl⟩, _, _,
        (ihc _ _ _ _ (by simpa [Nat.add_assoc] using hn₀)).mpr ⟨hp₀, rfl, rfl⟩, rfl, ?_⟩
      simp only [List.append_assoc]
  | node kind text children arity hplain ih =>
    intro place met items met' hn
    rw [hplain.outer] at hn ⊢
    rw [hplain.listable_iff, hplain.listing]
    by_cases hk : kind = .lambda ∨ kind = .conditional
    · refine iff_of_false (not_builds_linearize hk hplain) fun h => ?_
      rcases hk with rfl | rfl
      · exact h.1.1.1 rfl
      · exact h.1.1.2 rfl
    · rw [not_or] at hk
      have hlist := @linearizeAll_iff number place children ih 0 met
      rw [linearize_node hk.1 hk.2, and_iff_right hk]
      simp only [builds_bind, builds_pure, emptied, fillAll, fill_instruction]
      constructor
      · rintro ⟨is, m, hi, rfl, rfl⟩
        obtain ⟨hp, rfl, rfl⟩ := (hlist _ _ hn).mp hi
        exact ⟨hp, rfl, rfl⟩
      · rintro ⟨hp, rfl, rfl⟩
        exact ⟨_, _, (hlist _ _ hn).mpr ⟨hp, rfl, rfl⟩, rfl, rfl⟩

/-! ## 4. All bodies -/

theorem builds_get {met m met' : List Pending} :
    Builds get met m met' ↔ m = met ∧ met' = met := by
  show ((Except.ok met : Except StandardizeError (List Pending)), met) = (.ok m, met') ↔ _
  rw [Prod.mk.injEq, Except.ok.injEq, eq_comm, @eq_comm _ met met']

/-- With no function left there is nothing to list. -/
theorem bodiesFrom_none {room k : Nat} {met met' : List Pending} {bodies : List (List Item)}
    (h : met[k]? = none) :
    Builds (bodiesFrom (room + 1) k) met bodies met' ↔ bodies = [] ∧ met' = met := by
  simp only [bodiesFrom, builds_bind, builds_get]
  constructor
  · rintro ⟨_, _, ⟨rfl, rfl⟩, hb⟩
    rw [h] at hb
    exact builds_pure.mp hb
  · intro hb
    refine ⟨_, _, ⟨rfl, rfl⟩, ?_⟩
    rw [h]
    exact builds_pure.mpr hb

/-- The body of the next function is listed, and the functions in it queue up behind those known. -/
theorem bodiesFrom_some {room k : Nat} {met met' : List Pending} {bodies : List (List Item)}
    {pending : Pending} (h : met[k]? = some pending) :
    Builds (bodiesFrom (room + 1) k) met bodies met' ↔
      ∃ body m rest, Builds (linearize pending.start) met body m ∧
        Builds (bodiesFrom room (k + 1)) m rest met' ∧ bodies = body :: rest := by
  simp only [bodiesFrom, builds_bind, builds_get]
  constructor
  · rintro ⟨_, _, ⟨rfl, rfl⟩, hb⟩
    rw [h] at hb
    simp only [builds_bind, builds_pure] at hb
    obtain ⟨body, m, hbody, rest, _, hrest, rfl, rfl⟩ := hb
    exact ⟨body, m, rest, hbody, hrest, rfl⟩
  · rintro ⟨body, m, rest, hbody, hrest, rfl⟩
    refine ⟨_, _, ⟨rfl, rfl⟩, ?_⟩
    rw [h]
    simp only [builds_bind, builds_pure]
    exact ⟨body, m, hbody, rest, _, hrest, rfl, rfl⟩

/-- **The bodies of all functions at hand.**  The builder lists them in breadth-first order. -/
theorem bodiesFrom_iff {room : Nat} {done queue : List Site} {met' : List Pending}
    {bodies : List (List Item)} (hw : weight queue ≤ room)
    (hn : Numbered number 0 (done ++ breadthFirst room queue)) :
    Builds (bodiesFrom room done.length) ((done ++ queue).map pendingOf) bodies met' ↔
      (∀ s ∈ breadthFirst room queue, s.body.Listable) ∧
      bodies = (breadthFirst room queue).map (fun s => emptied (s.items number)) ∧
      met' = (done ++ breadthFirst room queue).map pendingOf := by
  induction room generalizing done queue met' bodies with
  | zero =>
    rw [eq_nil_of_weight hw]
    simp [bodiesFrom, builds_pure, breadthFirst]
  | succ room ih =>
    cases queue with
    | nil =>
      rw [bodiesFrom_none (by simp)]
      simp [breadthFirst]
    | cons s queue =>
      have hw' := weight_queue_step hw
      have hn' : Numbered number 0 ((done ++ [s]) ++ breadthFirst room (queue ++ s.inner)) := by
        simpa [breadthFirst] using hn
      -- the functions that the body meets stand right behind those that were met before
      have hinner : Numbered number ((done ++ s :: queue).map pendingOf).length s.inner := by
        rw [breadthFirst_eq hw'] at hn'
        have := (numbered_append (numbered_append (numbered_append hn').2).1).2
        simpa [Nat.add_assoc, Nat.add_comm 1] using this
      have hmet : (done ++ s :: queue).map pendingOf ++ s.inner.map pendingOf =
          ((done ++ [s]) ++ (queue ++ s.inner)).map pendingOf := by
        simp
      have hlen : (done ++ [s]).length = done.length + 1 := by simp
      have hrest : ∀ js, Builds (bodiesFrom room (done.length + 1))
          ((done ++ s :: queue).map pendingOf ++ s.inner.map pendingOf) js met' ↔
          (∀ x ∈ breadthFirst room (queue ++ s.inner), x.body.Listable) ∧
            js = (breadthFirst room (queue ++ s.inner)).map (fun x => emptied (x.items number)) ∧
            met' = ((done ++ [s]) ++ breadthFirst room (queue ++ s.inner)).map pendingOf := by
        intro js
        rw [hmet, ← hlen]
        exact ih hw' hn'
      have hnext : ((done ++ s :: queue).map pendingOf)[done.length]? = some (pendingOf s) := by
        simp
      rw [bodiesFrom_some hnext]
      simp only [breadthFirst, List.map_cons, List.forall_mem_cons]
      constructor
      · rintro ⟨is, m, js, hi, hj, rfl⟩
        obtain ⟨hp, rfl, rfl⟩ := (linearize_iff s.body s.place _ _ _ hinner).mp hi
        obtain ⟨hp', rfl, rfl⟩ := (hrest js).mp hj
        exact ⟨⟨hp, hp'⟩, rfl, by simp⟩
      · rintro ⟨⟨hp, hp'⟩, rfl, rfl⟩
        exact ⟨_, _, _, (linearize_iff s.body s.place _ _ _ hinner).mpr ⟨hp, rfl, rfl⟩,
          (hrest _).mpr ⟨hp', rfl, by simp⟩, rfl⟩

/-! ## 5. Filling bodies in -/

/-- Only the last filling counts; so a body that was emptied is filled in like the body itself. -/
theorem fillAll_fillAll (f g : Nat → List Item) : (is : List Item) →
    fillAll f (fillAll g is) = fillAll f is
  | [] => rfl
  | .node _ _ _ _ :: is | .delta _ :: is | .eta _ :: is | .marker _ :: is => by
    simp only [fillAll, fill, fillAll_fillAll f g is]
  | .beta thenBody elseBody :: is => by
    simp only [fillAll, fill, fillAll_fillAll f g thenBody, fillAll_fillAll f g elseBody,
      fillAll_fillAll f g is]

/-- Children in a row. -/
theorem fillAll_listingAll {place : Place} {filler : Nat → List Item} {ts : List Tree}
    (h : ∀ t ∈ ts, ∀ place, (∀ s ∈ outer place t, filler (number s.place) = s.items number) →
      fillAll filler (t.listing number place) = t.listing number place) :
    ∀ k, (∀ s ∈ outerAll place k ts, filler (number s.place) = s.items number) →
      fillAll filler (listingAll number place k ts) = listingAll number place k ts := by
  induction ts with
  | nil => intro k _; rfl
  | cons t ts ih =>
    intro k hf
    simp only [outerAll, List.forall_mem_append] at hf
    simp only [listingAll, fillAll_append]
    rw [h t List.mem_cons_self _ hf.1,
      ih (fun t' ht => h t' (List.mem_cons_of_mem _ ht)) (k + 1) hf.2]

/-- Filling a listing in with the items of its functions changes nothing. -/
theorem fillAll_listing {filler : Nat → List Item} (t : Tree) :
    ∀ place, (∀ s ∈ outer place t, filler (number s.place) = s.items number) →
      fillAll filler (t.listing number place) = t.listing number place := by
  induction t using listing_induction with
  | lambda text param body arity ih =>
    intro place hf
    have := hf ⟨place ++ [1], param, body⟩ (by simp [outer])
    simp only [listing, fillAll, fill, this]
    rfl
  | choice text condition thenPart elsePart arity ihc iht ihe =>
    intro place hf
    simp only [outer, List.forall_mem_append] at hf
    simp only [listing, fillAll, fill]
    rw [ihc _ hf.2, iht _ hf.1.1, ihe _ hf.1.2]
  | node kind text children arity hplain ih =>
    intro place hf
    rw [hplain.outer] at hf
    rw [hplain.listing, fillAll, fill_instruction, fillAll_listingAll ih 0 hf]

/-- A structure is found by its number, if no two have the same. -/
theorem bodyAmong_map {sites : List Site} (hd : (sites.map fun s => number s.place).Nodup)
    {s : Site} (hs : s ∈ sites) :
    bodyAmong (sites.map (Site.closure number)) (number s.place) = s.items number := by
  induction sites with
  | nil => cases hs
  | cons s' sites ih =>
    rw [List.map_cons, List.nodup_cons] at hd
    rcases List.mem_cons.mp hs with rfl | hs
    · simp [bodyAmong, Site.closure]
    · have hne : number s'.place ≠ number s.place := by
        intro heq
        exact hd.1 (List.mem_map.mpr ⟨s, hs, heq.symm⟩)
      have := ih hd.2 hs
      simpa [bodyAmong, Site.closure, hne] using this

/-- The structure of a function before bodies are filled in. -/
def unfilled (number : Place → Nat) (s : Site) : Closure :=
  { s.closure number with body := emptied (s.items number) }

/-- **Filling in from the last structure on** puts every body in place, since a function comes
before those in its body. -/
theorem fillStructures_breadthFirst {room : Nat} {queue : List Site} (hw : weight queue ≤ room)
    (hd : ((breadthFirst room queue).map fun s => number s.place).Nodup) :
    fillStructures ((breadthFirst room queue).map (unfilled number)) =
      (breadthFirst room queue).map (Site.closure number) := by
  induction room generalizing queue with
  | zero => rfl
  | succ room ih =>
    cases queue with
    | nil => rfl
    | cons s queue =>
      have hw' := weight_queue_step hw
      rw [breadthFirst, List.map_cons, List.nodup_cons] at hd
      -- the bodies behind are filled in already, and the functions of this body are among them
      have hlater : ∀ x ∈ s.inner, x ∈ breadthFirst room (queue ++ s.inner) := by
        intro x hx
        rw [breadthFirst_eq hw']
        exact List.mem_append_left _ (List.mem_append_right _ hx)
      simp only [breadthFirst, List.map_cons, fillStructures]
      rw [ih hw' hd.2]
      congr 1
      simp only [unfilled, Site.closure, emptied, fillAll_fillAll]
      congr 1
      exact fillAll_listing s.body s.place fun x hx => bodyAmong_map hd.2 (hlater x hx)

/-! ## 6. Programs -/

theorem nodup_of_numbered {sites : List Site} (h : Numbered number 0 sites) :
    (sites.map fun s => number s.place).Nodup := by
  rw [map_number_of_numbered h]
  exact List.nodup_range'

/-- Bodies and functions are put together in the order in which they were met. -/
theorem assemble_eq {sites : List Site} (h : Numbered number 0 sites) :
    assemble (sites.map pendingOf) (sites.map fun s => emptied (s.items number)) =
      sites.map (unfilled number) := by
  apply List.ext_getElem?
  intro i
  rw [assemble, List.zip_map', List.getElem?_map, List.getElem?_zipIdx, List.getElem?_map,
    List.getElem?_map]
  cases hi : sites[i]? with
  | none => rfl
  | some s =>
    have := h i s hi
    simp [unfilled, Site.closure, pendingOf, this]

/-- The functions of a program are numbered as they are listed. -/
theorem numbered_sites (t : Tree) : Numbered t.number 0 t.sites := by
  intro j s hj
  rw [Nat.zero_add]
  exact number_of_getElem? hj

/-- **What the builder builds**: it can build the bodies exactly if all of them can be walked
through, and then it has met the functions of the tree, in breadth-first order. -/
theorem build_iff {t : Tree} {bodies : List (List Item)} {met : List Pending} :
    build t = (.ok bodies, met) ↔
      (∀ s ∈ t.sites, s.body.Listable) ∧
      bodies = t.sites.map (fun s => emptied (s.items t.number)) ∧
      met = t.sites.map pendingOf :=
  @bodiesFrom_iff t.number (t.size + 1) [] [t.root] met bodies t.weight_root (numbered_sites t)

/-- **The control structures of a tree**: they can be built exactly if all bodies can be walked
through, and then each function has its own, in breadth-first order. -/
theorem structures_iff {t : Tree} {cs : List Closure} :
    structures t = .ok cs ↔ (∀ s ∈ t.sites, s.body.Listable) ∧ cs = t.closures := by
  have hfill : fillStructures (t.sites.map (unfilled t.number)) = t.closures :=
    fillStructures_breadthFirst t.weight_root (nodup_of_numbered (numbered_sites t))
  have hassemble := assemble_eq (numbered_sites t)
  constructor
  · intro hok
    rcases hb : build t with ⟨e | bodies, met⟩
    · simp [structures, hb] at hok
    · obtain ⟨hl, rfl, rfl⟩ := build_iff.mp hb
      rw [structures, hb, Except.ok.injEq, hassemble, hfill] at hok
      exact ⟨hl, hok.symm⟩
  · rintro ⟨hl, rfl⟩
    simp only [structures, build_iff.mpr ⟨hl, rfl, rfl⟩, hassemble, hfill]

end Bodies

end Control

end Rpal
