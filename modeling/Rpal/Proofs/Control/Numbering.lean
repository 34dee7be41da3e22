/-
# The numbering of control structures

A node of a tree is in *expression position* if it stands in no parameter.  Every such node is
emitted once: it makes one entry in one body, where the entries of a body include those of the
branches of its conditionals.

    body of a function         the nodes in no function within it      (`entriesAll_listing`)
    all bodies together        all nodes in expression position        (`entries_perm`)

The entries that refer to structures are those of the functions.  Read body after body, they are
the structures themselves but the first, in their order (`flatMap_references`).  So every structure
but the program has one reference, in a body that comes before it, and the references to later
structures come in later bodies.  `numbering_of_structures` puts this together.
-/
import Mathlib.Data.List.Nodup
import Rpal.Proofs.Control.Listing

namespace Rpal

/-! ## 1. Entries of a body -/

mutual

/-- The entries of an item: itself, and those in the branches of a conditional. -/
def Item.entries : Item → List Item
  | .beta thenBody elseBody =>
    .beta thenBody elseBody :: (Item.entriesAll thenBody ++ Item.entriesAll elseBody)
  | .node kind text children arity => [.node kind text children arity]
  | .delta c => [.delta c]
  | .eta c => [.eta c]
  | .marker env => [.marker env]

/-- The entries of several items. -/
def Item.entriesAll : List Item → List Item
  | [] => []
  | i :: is => i.entries ++ Item.entriesAll is

end

/-- The structure that an item refers to. -/
def Item.closure? : Item → Option Closure
  | .delta c => some c
  | _ => none

/-- The structures that the entries of a body refer to, in their order. -/
def Closure.references (c : Closure) : List Closure :=
  (Item.entriesAll c.body).filterMap Item.closure?

theorem Item.entriesAll_append (is js : List Item) :
    Item.entriesAll (is ++ js) = Item.entriesAll is ++ Item.entriesAll js := by
  induction is with
  | nil => rfl
  | cons i is ih => simp [Item.entriesAll, ih]

theorem Item.entries_instruction (kind : Kind) (text : Option String) (n : Nat) :
    (Control.instruction kind text n).entries = [Control.instruction kind text n] := rfl

namespace Tree

/-! ## 2. Nodes of a tree -/

/-- A node of a tree, as the subtree below it, with its place. -/
structure Occurrence where
  place : Place
  node : Tree

mutual

/-- The nodes in expression position, in pre-order: not those in the first child of a function. -/
def expressionsAt (place : Place) : Tree → List Occurrence
  | ⟨kind, text, children, arity⟩ =>
    ⟨place, ⟨kind, text, children, arity⟩⟩ ::
      match kind, children with
      | .lambda, _ :: rest => expressionsFrom place 1 rest
      | _, children => expressionsFrom place 0 children

/-- The nodes in expression position of neighbours, the first of which is child `k`. -/
def expressionsFrom (place : Place) : Nat → List Tree → List Occurrence
  | _, [] => []
  | k, t :: ts => expressionsAt (place ++ [k]) t ++ expressionsFrom place (k + 1) ts

end

/-- The nodes of a program in expression position. -/
def expressions (t : Tree) : List Occurrence := expressionsAt [] t

/-- The functions of a program in expression position. -/
def lambdas (t : Tree) : List Occurrence := t.expressions.filter (·.node.kind = .lambda)

mutual

/-- The nodes of a tree that stand in no function within it, in the order of their entries:
the branches of a conditional before its condition. -/
def ownNodes (place : Place) : Tree → List Occurrence
  | ⟨kind, text, children, arity⟩ =>
    ⟨place, ⟨kind, text, children, arity⟩⟩ ::
      match kind, children with
      | .lambda, [_, _] => []
      | .conditional, [condition, thenPart, elsePart] =>
        ownNodes (place ++ [1]) thenPart ++ ownNodes (place ++ [2]) elsePart ++
          ownNodes (place ++ [0]) condition
      | _, children => ownNodesAll place 0 children

/-- The own nodes of neighbours, the first of which is child `k`. -/
def ownNodesAll (place : Place) : Nat → List Tree → List Occurrence
  | _, [] => []
  | k, t :: ts => ownNodes (place ++ [k]) t ++ ownNodesAll place (k + 1) ts

end

/-- The entry that a node makes. -/
def Occurrence.entry (number : Place → Nat) (o : Occurrence) : Item :=
  match o.node with
  | ⟨.lambda, _, [param, body], _⟩ => .delta (Site.closure number ⟨o.place ++ [1], param, body⟩)
  | ⟨.conditional, _, [_, thenPart, elsePart], _⟩ =>
    .beta (thenPart.listing number (o.place ++ [1])) (elsePart.listing number (o.place ++ [2]))
  | ⟨kind, text, children, _⟩ => Control.instruction kind text children.length

/-- The nodes in expression position in the body of a function. -/
def Site.expressions (s : Site) : List Occurrence := expressionsAt s.place s.body

/-- The own nodes of the body of a function. -/
def Site.nodes (s : Site) : List Occurrence := ownNodes s.place s.body

section Nodes

variable {number : Place → Nat} {kind : Kind} {text : Option String} {children : List Tree}
  {arity : Nat}

theorem IsPlain.ownNodes (h : IsPlain ⟨kind, text, children, arity⟩) (place : Place) :
    ownNodes place ⟨kind, text, children, arity⟩ =
      ⟨place, ⟨kind, text, children, arity⟩⟩ :: ownNodesAll place 0 children := by
  unfold Tree.ownNodes
  split
  · cases h
  · cases h
  · rfl

theorem IsPlain.entry (h : IsPlain ⟨kind, text, children, arity⟩) (place : Place) :
    Occurrence.entry number ⟨place, ⟨kind, text, children, arity⟩⟩ =
      Control.instruction kind text children.length := by
  unfold Occurrence.entry
  split
  · rename_i heq
    cases heq
    cases h
  · rename_i heq
    cases heq
    cases h
  · rename_i heq
    cases heq
    rfl

theorem expressionsAt_node (hk : kind ≠ .lambda) (place : Place) :
    expressionsAt place ⟨kind, text, children, arity⟩ =
      ⟨place, ⟨kind, text, children, arity⟩⟩ :: expressionsFrom place 0 children := by
  unfold expressionsAt
  split
  · exact absurd rfl hk
  · rfl

/-! ### A body lists its own nodes -/

theorem entriesAll_listingAll {place : Place} {ts : List Tree}
    (h : ∀ t ∈ ts, ∀ place, Item.entriesAll (t.listing number place) =
      (ownNodes place t).map (Occurrence.entry number)) :
    ∀ k, Item.entriesAll (listingAll number place k ts) =
      (ownNodesAll place k ts).map (Occurrence.entry number) := by
  induction ts with
  | nil => intro k; rfl
  | cons t ts ih =>
    intro k
    simp only [listingAll, ownNodesAll, Item.entriesAll_append, List.map_append]
    rw [h t List.mem_cons_self, ih fun t' ht => h t' (List.mem_cons_of_mem _ ht)]

/-- **The entries of a listing** are those of the own nodes of the tree, one by one. -/
theorem entriesAll_listing (t : Tree) : ∀ place, Item.entriesAll (t.listing number place) =
    (ownNodes place t).map (Occurrence.entry number) := by
  induction t using listing_induction with
  | lambda text param body arity ih =>
    intro place
    rfl
  | choice text condition thenPart elsePart arity ihc iht ihe =>
    intro place
    simp only [listing, ownNodes, Item.entriesAll, Item.entries, List.map_cons, List.map_append,
      List.cons_append]
    rw [ihc, iht, ihe]
    rfl
  | node kind text children arity hplain ih =>
    intro place
    rw [hplain.listing, hplain.ownNodes, Item.entriesAll, Item.entries_instruction, List.map_cons,
      hplain.entry, entriesAll_listingAll ih]
    rfl

theorem references_listingAll {place : Place} {ts : List Tree}
    (h : ∀ t ∈ ts, ∀ place, (Item.entriesAll (t.listing number place)).filterMap Item.closure? =
      (outer place t).map (Site.closure number)) :
    ∀ k, (Item.entriesAll (listingAll number place k ts)).filterMap Item.closure? =
      (outerAll place k ts).map (Site.closure number) := by
  induction ts with
  | nil => intro k; rfl
  | cons t ts ih =>
    intro k
    simp only [listingAll, outerAll, Item.entriesAll_append, List.filterMap_append, List.map_append]
    rw [h t List.mem_cons_self, ih fun t' ht => h t' (List.mem_cons_of_mem _ ht)]

/-- **The references of a listing** are to the outer functions of the tree, one by one. -/
theorem references_listing (t : Tree) :
    ∀ place, (Item.entriesAll (t.listing number place)).filterMap Item.closure? =
      (outer place t).map (Site.closure number) := by
  induction t using listing_induction with
  | lambda text param body arity ih =>
    intro place
    rfl
  | choice text condition thenPart elsePart arity ihc iht ihe =>
    intro place
    rw [listing, Item.entriesAll, Item.entries, List.cons_append, List.filterMap_cons_none rfl]
    simp only [outer, List.filterMap_append, List.map_append, ihc, iht, ihe]
  | node kind text children arity hplain ih =>
    intro place
    rw [hplain.listing, hplain.outer, Item.entriesAll, Item.entries_instruction,
      ← references_listingAll ih]
    rfl

/-! ### Bodies share the nodes out -/

/-- Two lists with a part and a rest each have both parts before both rests. -/
theorem perm_append_parts {α : Type} {xs ps rs ys qs ss : List α} (hx : xs.Perm (ps ++ rs))
    (hy : ys.Perm (qs ++ ss)) : (xs ++ ys).Perm ((ps ++ qs) ++ (rs ++ ss)) := by
  refine (hx.append hy).trans ?_
  simp only [List.append_assoc]
  exact (List.perm_append_comm_assoc rs qs ss).append_left ps

theorem expressionsFrom_perm {place : Place} {ts : List Tree}
    (h : ∀ t ∈ ts, ∀ place, (expressionsAt place t).Perm
      (ownNodes place t ++ (outer place t).flatMap Site.expressions)) :
    ∀ k, (expressionsFrom place k ts).Perm
      (ownNodesAll place k ts ++ (outerAll place k ts).flatMap Site.expressions) := by
  induction ts with
  | nil => intro k; exact .refl _
  | cons t ts ih =>
    intro k
    simp only [expressionsFrom, ownNodesAll, outerAll, List.flatMap_append]
    exact perm_append_parts (h t List.mem_cons_self _)
      (ih (fun t' ht => h t' (List.mem_cons_of_mem _ ht)) _)

/-- **The nodes of a tree** are its own nodes and those in the bodies of its outer functions. -/
theorem expressionsAt_perm {t : Tree} (h : t.Listable) : ∀ place, (expressionsAt place t).Perm
    (ownNodes place t ++ (outer place t).flatMap Site.expressions) := by
  induction h with
  | lambda hp =>
    intro place
    simp [expressionsAt, expressionsFrom, ownNodes, outer, Site.expressions]
  | choice _ _ _ ihc iht ihe =>
    intro place
    rw [expressionsAt_node (by decide)]
    simp only [expressionsFrom, ownNodes, outer, List.append_nil, List.flatMap_append,
      List.cons_append]
    -- the condition comes first in the tree and last among the entries
    exact (List.perm_append_comm.trans
      (perm_append_parts (perm_append_parts (iht _) (ihe _)) (ihc _))).cons _
  | node h₁ h₂ _ ih =>
    intro place
    have hplain := isPlain_of_ne h₁ h₂
    rw [expressionsAt_node h₁, (hplain _ _ _).ownNodes, (hplain _ _ _).outer, List.cons_append]
    exact (expressionsFrom_perm ih 0).cons _

/-- **The bodies of all functions** share out the nodes of a program among them. -/
theorem expressions_perm {t : Tree} (h : ∀ s ∈ t.sites, s.body.Listable) :
    t.expressions.Perm (t.sites.flatMap Site.nodes) := by
  have hparts : ∀ s ∈ t.sites,
      s.expressions.Perm (s.nodes ++ s.inner.flatMap Site.expressions) :=
    fun s hs => expressionsAt_perm (h s hs) s.place
  have hroot : t.expressions = [t.root].flatMap Site.expressions := by
    simp [expressions, root, Site.expressions]
  rw [hroot]
  exact perm_flatMap_breadthFirst t.weight_root hparts

/-- A node that is a function has a parameter of the language and a body. -/
def Occurrence.HasParts (o : Occurrence) : Prop :=
  o.node.kind = .lambda → ∃ text param body arity,
    o.node = ⟨.lambda, text, [param, body], arity⟩ ∧ param.IsParameter

theorem forall_ownNodesAll {Q : Occurrence → Prop} {place : Place} {ts : List Tree}
    (h : ∀ t ∈ ts, ∀ place, ∀ o ∈ ownNodes place t, Q o) :
    ∀ k, ∀ o ∈ ownNodesAll place k ts, Q o := by
  induction ts with
  | nil => simp [ownNodesAll]
  | cons t ts ih =>
    intro k
    rw [ownNodesAll, List.forall_mem_append]
    exact ⟨h t List.mem_cons_self _, ih (fun t' ht => h t' (List.mem_cons_of_mem _ ht)) _⟩

theorem hasParts_of_mem_ownNodes {t : Tree} (h : t.Listable) :
    ∀ place, ∀ o ∈ ownNodes place t, o.HasParts := by
  induction h with
  | lambda hp =>
    intro place o ho
    rw [ownNodes, List.mem_singleton] at ho
    rw [ho]
    exact fun _ => ⟨_, _, _, _, rfl, hp⟩
  | choice _ _ _ ihc iht ihe =>
    intro place
    simp only [ownNodes, List.forall_mem_cons, List.forall_mem_append]
    exact ⟨fun hk => (by cases hk), ⟨iht _, ihe _⟩, ihc _⟩
  | node h₁ h₂ _ ih =>
    intro place
    rw [(isPlain_of_ne h₁ h₂ _ _ _).ownNodes, List.forall_mem_cons]
    exact ⟨fun hk => absurd hk h₁, forall_ownNodesAll ih 0⟩

end Nodes

/-! ## 3. Structures -/

section Structures

variable {t : Tree} {c d : Closure} {i : Nat}

theorem getElem?_closures {s : Site} (hs : t.sites[i]? = some s) :
    t.closures[i]? = some (s.closure t.number) := by
  rw [closures, List.getElem?_map, hs]
  rfl

theorem exists_site (hc : t.closures[i]? = some c) :
    ∃ s, t.sites[i]? = some s ∧ s.closure t.number = c := by
  rwa [closures, List.getElem?_map, Option.map_eq_some_iff] at hc

/-- **Structures are numbered from 0 on.** -/
theorem index_of_getElem? (hc : t.closures[i]? = some c) : c.index = i := by
  obtain ⟨s, hs, rfl⟩ := exists_site hc
  exact number_of_getElem? hs

theorem references_closure (number : Place → Nat) (s : Site) :
    (s.closure number).references = s.inner.map (Site.closure number) :=
  references_listing s.body s.place

/-- **The structures that bodies refer to**, body after body, are all but that of the program. -/
theorem flatMap_references (t : Tree) :
    t.closures.flatMap Closure.references = t.closures.tail := by
  have htail : t.sites.tail = t.sites.flatMap Site.inner := by
    conv_lhs => rw [sites_eq]
    rfl
  rw [closures, List.flatMap_map, ← List.map_tail, htail, List.map_flatMap]
  simp only [references_closure]

theorem indices_tail (t : Tree) :
    t.closures.tail.map (·.index) = List.range' 1 (t.closures.length - 1) := by
  have hindices : t.closures.map (·.index) = List.range' 0 t.closures.length := by
    rw [closures, List.map_map, List.length_map]
    exact Control.map_number_of_numbered (Control.numbered_sites t)
  rw [List.map_tail, hindices, List.tail_range']

/-- A reference is to a later structure, and holds that structure itself. -/
theorem getElem?_reference (hc : t.closures[i]? = some c) (hd : d ∈ c.references) :
    i < d.index ∧ t.closures[d.index]? = some d := by
  obtain ⟨s, hs, rfl⟩ := exists_site hc
  rw [references_closure, List.mem_map] at hd
  obtain ⟨x, hx, rfl⟩ := hd
  obtain ⟨j, hij, hj⟩ := inner_after t.weight_root hs hx
  have hindex : (x.closure t.number).index = j := number_of_getElem? hj
  rw [hindex]
  exact ⟨hij, getElem?_closures hj⟩

/-- References in later bodies are to later structures. -/
theorem pairwise_references (t : Tree) : t.closures.Pairwise fun c c' =>
    ∀ d ∈ c.references, ∀ d' ∈ c'.references, d.index < d'.index := by
  have hsorted : t.closures.tail.Pairwise fun d d' => d.index < d'.index := by
    rw [← List.pairwise_map, indices_tail]
    exact List.pairwise_lt_range'
  rw [← flatMap_references, List.pairwise_flatMap] at hsorted
  exact hsorted.2

theorem countP_references (h₁ : 1 ≤ i) (hi : i < t.closures.length) :
    (t.closures.flatMap Closure.references).countP (·.index = i) = 1 := by
  have hcount : t.closures.tail.countP (·.index = i) = (t.closures.tail.map (·.index)).count i := by
    rw [List.count, List.countP_map]
    rfl
  rw [flatMap_references, hcount, indices_tail]
  exact List.count_eq_one_of_mem List.nodup_range' (List.mem_range'_1.mpr ⟨h₁, by omega⟩)

/-- **Every structure but that of the program** has its reference in an earlier body. -/
theorem exists_reference (h₁ : 1 ≤ i) (hi : i < t.closures.length) :
    ∃ k < i, ∃ c d, t.closures[k]? = some c ∧ d ∈ c.references ∧ d.index = i := by
  have hmem : i ∈ t.closures.tail.map (·.index) := by
    rw [indices_tail]
    exact List.mem_range'_1.mpr ⟨h₁, by omega⟩
  rw [← flatMap_references, List.mem_map] at hmem
  obtain ⟨d, hd, rfl⟩ := hmem
  obtain ⟨c, hc, hd⟩ := List.mem_flatMap.mp hd
  obtain ⟨k, hk⟩ := List.mem_iff_getElem?.mp hc
  exact ⟨k, (getElem?_reference hk hd).1, c, d, hk, hd, rfl⟩

/-- Structures whose references are in order come from bodies in order. -/
theorem le_of_references {k l : Nat} {c' d' : Closure} (hc : t.closures[k]? = some c)
    (hc' : t.closures[l]? = some c') (hd : d ∈ c.references) (hd' : d' ∈ c'.references)
    (hle : d.index ≤ d'.index) : k ≤ l := by
  obtain ⟨hk, rfl⟩ := List.getElem?_eq_some_iff.mp hc
  obtain ⟨hl, rfl⟩ := List.getElem?_eq_some_iff.mp hc'
  by_contra hlt
  have := List.pairwise_iff_getElem.mp (pairwise_references t) l k hl hk (by omega) d' hd' d hd
  omega

/-- **Parents are monotone**: the structures with the references to structures 1, 2, 3, ... come
in order. -/
theorem exists_parents (t : Tree) : ∃ p : Nat → Nat,
    (∀ i, 1 ≤ i → i < t.closures.length →
      p i < i ∧ ∃ c d, t.closures[p i]? = some c ∧ d ∈ c.references ∧ d.index = i) ∧
    ∀ i j, 1 ≤ i → i ≤ j → j < t.closures.length → p i ≤ p j := by
  have hreference : ∀ i, ∃ k, 1 ≤ i → i < t.closures.length →
      k < i ∧ ∃ c d, t.closures[k]? = some c ∧ d ∈ c.references ∧ d.index = i := by
    intro i
    by_cases hi : 1 ≤ i ∧ i < t.closures.length
    · obtain ⟨k, hk, hrest⟩ := exists_reference hi.1 hi.2
      exact ⟨k, fun _ _ => ⟨hk, hrest⟩⟩
    · exact ⟨0, fun h₁ h₂ => absurd ⟨h₁, h₂⟩ hi⟩
  choose p hp using hreference
  refine ⟨p, hp, fun i j h₁ hij hj => ?_⟩
  obtain ⟨-, c, d, hc, hd, rfl⟩ := hp i h₁ (by omega)
  obtain ⟨-, c', d', hc', hd', rfl⟩ := hp j (by omega) hj
  exact le_of_references hc hc' hd hd' hij

/-- **All entries** are those of the nodes in expression position. -/
theorem entries_perm (h : ∀ s ∈ t.sites, s.body.Listable) :
    (t.closures.flatMap fun c => Item.entriesAll c.body).Perm
      (t.expressions.map (Occurrence.entry t.number)) := by
  have hbody : ∀ s : Site, Item.entriesAll (s.closure t.number).body =
      s.nodes.map (Occurrence.entry t.number) := fun s => entriesAll_listing s.body s.place
  rw [closures, List.flatMap_map]
  simp only [hbody]
  rw [← List.map_flatMap]
  exact (expressions_perm h).symm.map _

theorem hasParts_of_mem_expressions (h : ∀ s ∈ t.sites, s.body.Listable) :
    ∀ o ∈ t.expressions, o.HasParts := by
  intro o ho
  obtain ⟨s, hs, ho⟩ := List.mem_flatMap.mp ((expressions_perm h).subset ho)
  exact hasParts_of_mem_ownNodes (h s hs) s.place o ho

theorem closure?_entry {number : Place → Nat} {o : Occurrence} (hk : o.node.kind ≠ .lambda) :
    (o.entry number).closure? = none := by
  unfold Occurrence.entry
  split
  · rename_i heq
    rw [heq] at hk
    exact absurd rfl hk
  · rfl
  · rfl

/-- The references among the entries of nodes are those of the functions among them. -/
theorem indices_entries {number : Place → Nat} {os : List Occurrence} (h : ∀ o ∈ os, o.HasParts) :
    ((os.map (Occurrence.entry number)).filterMap Item.closure?).map (·.index) =
      (os.filter (·.node.kind = .lambda)).map fun o => number (o.place ++ [1]) := by
  induction os with
  | nil => rfl
  | cons o os ih =>
    rw [List.forall_mem_cons] at h
    by_cases hk : o.node.kind = .lambda
    · obtain ⟨text, param, body, arity, hnode, -⟩ := h.1 hk
      have hentry : (o.entry number).closure? =
          some (Site.closure number ⟨o.place ++ [1], param, body⟩) := by
        rw [Occurrence.entry, hnode]
        rfl
      rw [List.map_cons, List.filterMap_cons_some hentry, List.filter_cons_of_pos (by simpa),
        List.map_cons, List.map_cons, ih h.2]
      rfl
    · rw [List.map_cons, List.filterMap_cons_none (closure?_entry hk),
        List.filter_cons_of_neg (by simpa), ih h.2]

/-- **Functions and structures** correspond: the numbers of the functions are those of the
structures but the program, each once. -/
theorem numbers_lambdas (h : ∀ s ∈ t.sites, s.body.Listable) :
    (t.lambdas.map fun o => t.number (o.place ++ [1])).Perm
      (List.range' 1 (t.closures.length - 1)) := by
  have hentries := ((entries_perm h).filterMap Item.closure?).map Closure.index
  rw [indices_entries (hasParts_of_mem_expressions h), List.filterMap_flatMap] at hentries
  rw [← indices_tail, ← flatMap_references]
  exact hentries.symm

/-- The first structure is that of the program. -/
theorem getElem?_program (t : Tree) :
    t.closures[0]? = some ⟨0, [], t.listing t.number [], .absent⟩ := by
  have hroot : t.sites[0]? = some t.root := by
    rw [sites_eq]
    rfl
  rw [getElem?_closures hroot, Site.closure, number_of_getElem? hroot]
  rfl

theorem length_closures (h : ∀ s ∈ t.sites, s.body.Listable) :
    t.closures.length = t.lambdas.length + 1 := by
  have hlength := (numbers_lambdas h).length_eq
  have hpos : 0 < t.closures.length := (List.getElem?_eq_some_iff.mp (getElem?_program t)).1
  rw [List.length_map, List.length_range'] at hlength
  omega

/-- The structure of a function has its names and the listing of its body. -/
theorem getElem?_lambda (h : ∀ s ∈ t.sites, s.body.Listable) {o : Occurrence}
    (ho : o ∈ t.lambdas) : ∃ text param body arity names,
      o.node = ⟨.lambda, text, [param, body], arity⟩ ∧
      Control.boundNames param = .ok names ∧
      t.closures[t.number (o.place ++ [1])]? = some ⟨t.number (o.place ++ [1]), names,
        body.listing t.number (o.place ++ [1]), .absent⟩ := by
  obtain ⟨ho, hk⟩ := List.mem_filter.mp ho
  obtain ⟨text, param, body, arity, hnode, hparam⟩ :=
    hasParts_of_mem_expressions h o ho (by simpa using hk)
  refine ⟨text, param, body, arity, _, hnode, Control.boundNames_iff.mpr ⟨hparam, rfl⟩, ?_⟩
  have hentry : o.entry t.number = .delta (Site.closure t.number ⟨o.place ++ [1], param, body⟩) := by
    rw [Occurrence.entry, hnode]
  -- the entry of the function is a reference to its structure in some body
  have hmem := (entries_perm h).symm.subset (List.mem_map_of_mem ho)
  obtain ⟨c, hc, hc'⟩ := List.mem_flatMap.mp hmem
  obtain ⟨k, hk⟩ := List.mem_iff_getElem?.mp hc
  exact (getElem?_reference hk (List.mem_filterMap.mpr ⟨_, hc', by rw [hentry]; rfl⟩)).2

end Structures

end Tree

namespace Control

open Rpal.Tree

/-- **How control structures are numbered.**  `number` maps the place of the body of a function to
the index of its structure. -/
structure Numbering (t : Tree) (number : Place → Nat) (cs : List Closure) : Prop where
  /-- The builder stops when no function is left: every structure that was met has its body. -/
  complete : ∃ bodies met, build t = (.ok bodies, met) ∧ bodies.length = met.length ∧
    met.length = cs.length
  /-- There is one structure more than there are functions in expression position. -/
  length : cs.length = t.lambdas.length + 1
  index : ∀ (i : Nat) (c : Closure), cs[i]? = some c → c.index = i
  program : cs[0]? = some ⟨0, [], t.listing number [], .absent⟩
  /-- All bodies together have one reference to each structure but that of the program. -/
  once : ∀ i, 1 ≤ i → i < cs.length → (cs.flatMap Closure.references).countP (·.index = i) = 1
  /-- A reference is the structure itself. -/
  shared : ∀ c ∈ cs, ∀ d ∈ c.references, cs[d.index]? = some d
  /-- The reference stands in an earlier body, and bodies refer to structures in order. -/
  parent : ∃ p : Nat → Nat,
    (∀ i, 1 ≤ i → i < cs.length →
      p i < i ∧ ∃ c d, cs[p i]? = some c ∧ d ∈ c.references ∧ d.index = i) ∧
    ∀ i j, 1 ≤ i → i ≤ j → j < cs.length → p i ≤ p j
  /-- The structure of a function binds its names, and its body is the listing of its body. -/
  function : ∀ o ∈ t.lambdas, ∃ text param body arity names,
    o.node = ⟨.lambda, text, [param, body], arity⟩ ∧ boundNames param = .ok names ∧
    cs[number (o.place ++ [1])]? =
      some ⟨number (o.place ++ [1]), names, body.listing number (o.place ++ [1]), .absent⟩
  /-- Different functions have different structures, and every structure but that of the program
  is that of a function. -/
  bijection : (t.lambdas.map fun o => number (o.place ++ [1])).Perm
    (List.range' 1 (cs.length - 1))
  /-- Every node in expression position is emitted once. -/
  emitted : (cs.flatMap fun c => Item.entriesAll c.body).Perm
    (t.expressions.map (Occurrence.entry number))

/-- **The numbering of control structures.**  Whenever the control structures of a tree can be
built, they are numbered breadth first: every node is emitted once, every function has its own
structure, and the references to structures come in the order of their numbers. -/
theorem numbering_of_structures {t : Tree} {cs : List Closure} (h : structures t = .ok cs) :
    Numbering t t.number cs := by
  obtain ⟨hlistable, rfl⟩ := structures_iff.mp h
  exact
    { complete := ⟨_, _, build_iff.mpr ⟨hlistable, rfl, rfl⟩, by simp, by simp [closures]⟩
      length := length_closures hlistable
      index := fun _ _ => index_of_getElem?
      program := getElem?_program t
      once := fun _ => countP_references
      shared := fun c hc d hd => by
        obtain ⟨k, hk⟩ := List.mem_iff_getElem?.mp hc
        exact (getElem?_reference hk hd).2
      parent := exists_parents t
      function := fun _ => getElem?_lambda hlistable
      bijection := numbers_lambdas hlistable
      emitted := entries_perm hlistable }

/-- The pair `(fn a . fn b . a), (c -> fn d . d | nil)`. -/
def nestedFunctions : Tree :=
  .branch .tau [
    .branch .lambda [.leaf .identifier "a",
      .branch .lambda [.leaf .identifier "b", .leaf .identifier "a"]],
    .branch .conditional [
      .leaf .identifier "c",
      .branch .lambda [.leaf .identifier "d", .leaf .identifier "d"],
      .branch .nil []]]

/-- Both outer functions come before the inner one. -/
theorem numbering_of_structures_nested : ∃ cs, structures nestedFunctions = .ok cs ∧
    cs.map (·.names) = [[], [some "a"], [some "d"], [some "b"]] ∧
    Numbering nestedFunctions nestedFunctions.number cs :=
  ⟨_, rfl, rfl, numbering_of_structures rfl⟩

end Control

end Rpal
