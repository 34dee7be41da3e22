/-
# Control and values are balanced

The instructions on the control can be read without running them: each takes some values and
leaves one, so the number of values that are there tells how many will be there in the end.

    values       h   h - n + 1   ..   1
    control    [ i  ,  i'  ,     ..    ]

`controlHeight` counts this way.  An instruction that would not find its values has no height,
and neither has a branch one of whose sides does not leave exactly one value.  A state is
`Balanced` if its control leads from the number of its values to 1.

The code of an expression leads from `h` to `h + 1` (`Core.height_code`), so a function that is
called leaves one value in place of the two that the application takes, and every effect keeps the
balance (`Effect.controlHeight`).

The second half of the discipline is about calls.  `callers` follows a run and keeps the states
that wait for a function to end, and the markers on the control hold the environments of just
these states (`Stacked.markers_eq`).
-/
import Rpal.Proofs.Machine.Lexical

namespace Rpal

/-! ## 1. Heights -/

mutual

/-- How many values there are after an instruction that finds `h` of them, if these are enough. -/
def Item.height : Item → Nat → Option Nat
  | .node kind _ _ arity, h =>
    match kind.operands arity with
    | some n => if n ≤ h then some (h - n + 1) else none
    | none => none
  | .delta _, h => some (h + 1)
  | .beta thenBody elseBody, h =>
    match h with
    | 0 => none
    | h + 1 =>
      if Item.bodyHeight thenBody h = some (h + 1) ∧ Item.bodyHeight elseBody h = some (h + 1) then
        some (h + 1)
      else none
  | .eta _, _ => none
  | .marker _, _ => none

/-- How many values there are after a body, the last item of which is executed first. -/
def Item.bodyHeight : List Item → Nat → Option Nat
  | [], h => some h
  | i :: is, h =>
    match Item.bodyHeight is h with
    | some k => i.height k
    | none => none

end

/-- How many values there are after the items of a control.  A marker takes and leaves none. -/
def Item.controlHeight : List Item → Nat → Option Nat
  | [], h => some h
  | .marker _ :: is, h => Item.controlHeight is h
  | i :: is, h => (i.height h).bind (Item.controlHeight is)

/-- Every item of the control finds its values, and in the end there is one. -/
def Machine.Balanced (m : Machine) : Prop :=
  Item.controlHeight m.control m.values.length = some 1

namespace Item

theorem height_node {kind : Kind} {arity n : Nat} (h : kind.operands arity = some n)
    (text : Option String) (children : List Item) (k : Nat) :
    (Item.node kind text children arity).height (n + k) = some (k + 1) := by
  simp [height, h]

/-- The branch that is taken in a balanced state leaves one value. -/
theorem bodyHeight_taken {thenBody elseBody body : List Item} {h k : Nat}
    (hi : (Item.beta thenBody elseBody).height (h + 1) = some k)
    (hb : body = thenBody ∨ body = elseBody) :
    bodyHeight body h = some (h + 1) ∧ k = h + 1 := by
  simp only [height] at hi
  split at hi
  · rename_i hboth
    refine ⟨?_, (Option.some.inj hi).symm⟩
    rcases hb with rfl | rfl
    · exact hboth.1
    · exact hboth.2
  · cases hi

theorem bodyHeight_cons {i : Item} {is : List Item} {h k : Nat} :
    bodyHeight (i :: is) h = some k ↔ ∃ n, bodyHeight is h = some n ∧ i.height n = some k := by
  cases hb : bodyHeight is h <;> simp [bodyHeight, hb]

theorem bodyHeight_append {is js : List Item} {h n : Nat} (hj : bodyHeight js h = some n) :
    bodyHeight (is ++ js) h = bodyHeight is n := by
  induction is with
  | nil => exact hj
  | cons i is ih => simp only [List.cons_append, bodyHeight, ih]

theorem controlHeight_cons {i : Item} (hi : ∀ env, i ≠ .marker env) (is : List Item) (h : Nat) :
    controlHeight (i :: is) h = (i.height h).bind (controlHeight is) := by
  cases i with
  | marker env => exact absurd rfl (hi env)
  | _ => rfl

/-- An application leaves one value in place of two. -/
theorem controlHeight_gamma (text : Option String) (children : List Item) (arity : Nat)
    (is : List Item) (h : Nat) :
    controlHeight (.node .gamma text children arity :: is) (h + 2) = controlHeight is (h + 1) := by
  rw [controlHeight_cons (fun env => Item.noConfusion), Nat.add_comm h 2, height_node (n := 2) rfl]
  rfl

theorem ne_marker_of_height {i : Item} {h k : Nat} (hi : i.height h = some k) (env : Env) :
    i ≠ .marker env := by
  rintro rfl
  cases hi

/-- There is no marker in a body that has a height. -/
theorem unmarked_of_bodyHeight {is : List Item} {h k : Nat} (hb : bodyHeight is h = some k) :
    ∀ env, .marker env ∉ is := by
  induction is generalizing k with
  | nil => exact fun env => List.not_mem_nil
  | cons i is ih =>
    obtain ⟨n, hn, hi⟩ := bodyHeight_cons.mp hb
    intro env hmem
    rcases List.mem_cons.mp hmem with heq | hmem
    · exact ne_marker_of_height hi env heq.symm
    · exact ih hn env hmem

/-- **A body on the control** counts as it does alone. -/
theorem controlHeight_schedule {is : List Item} {h k : Nat} (hb : bodyHeight is h = some k) :
    ∀ rest, controlHeight (is.reverse ++ rest) h = controlHeight rest k := by
  induction is generalizing k with
  | nil =>
    cases hb
    exact fun rest => rfl
  | cons i is ih =>
    obtain ⟨n, hn, hi⟩ := bodyHeight_cons.mp hb
    intro rest
    rw [List.reverse_cons, List.append_assoc, ih hn, List.singleton_append,
      controlHeight_cons (ne_marker_of_height hi), hi]
    rfl

end Item

/-! ## 2. Code -/

namespace Core

mutual

/-- **The code of an expression** leaves one value more than it finds. -/
theorem height_code (h : Nat) : (e : Core) → Item.bodyHeight e.code h = some (h + 1)
  | .name _ => rfl
  | .literal l _ => by cases l <;> rfl
  | .nil _ => rfl
  | .tuple note parts => by
    refine Item.bodyHeight_cons.mpr ⟨_, height_codeAll h parts, ?_⟩
    rw [Nat.add_comm]
    exact Item.height_node rfl note [] h
  | .apply note f a => by
    refine Item.bodyHeight_cons.mpr ⟨2 + h, ?_, Item.height_node rfl note [] h⟩
    rw [Item.bodyHeight_append (height_code h a), height_code (h + 1) f]
    exact congrArg some (Nat.add_comm h 2)
  | .unary note op x => by
    refine Item.bodyHeight_cons.mpr ⟨1 + h, ?_, Item.height_node ?_ note [] h⟩
    · rw [height_code h x, Nat.add_comm]
    · cases op <;> rfl
  | .binary note op x y => by
    refine Item.bodyHeight_cons.mpr ⟨2 + h, ?_, Item.height_node ?_ note [] h⟩
    · rw [Item.bodyHeight_append (height_code h y), height_code (h + 1) x]
      exact congrArg some (Nat.add_comm h 2)
    · cases op <;> rfl
  | .choice condition thenPart elsePart => by
    refine Item.bodyHeight_cons.mpr ⟨h + 1, height_code h condition, ?_⟩
    simp only [Item.height, height_code h thenPart, height_code h elsePart, and_self, if_true]
  | .lambda _ _ _ => rfl

theorem height_codeAll (h : Nat) :
    (es : List Core) → Item.bodyHeight (codeAll es) h = some (h + es.length)
  | [] => rfl
  | e :: es => by
    rw [codeAll, Item.bodyHeight_append (height_codeAll h es), height_code (h + es.length) e]
    rfl

end

end Core

/-- Every function that is a value in a lexical state has a balanced body. -/
theorem Lexical.height_of_mem {t : Tree} {m : Machine} (hm : Lexical t m) {c : Closure}
    (hc : .delta c ∈ m.values) (h : Nat) : Item.bodyHeight c.body h = some (h + 1) := by
  obtain ⟨-, -, -, -, -, -, -, hvalues⟩ := hm
  obtain ⟨⟨s, -, hcs, -⟩, -⟩ := Closure.all_iff.mp (hvalues _ hc)
  have hbody : c.body = Control.bodyOf t.number s := by
    rw [hcs]
    rfl
  rw [hbody]
  exact Core.height_code h _

/-! ## 3. Balance in a step -/

namespace Machine

variable {m next : Machine} {i : Item} {rest : List Item}

/-- A state that is balanced has enough values for its next instruction. -/
theorem enough_of_controlHeight {k : Nat}
    (h : Item.controlHeight (i :: m.control) m.values.length = some k) : Enough m i := by
  cases i with
  | node kind text children arity =>
    rw [Item.controlHeight_cons (fun env => Item.noConfusion)] at h
    cases hn : kind.operands arity with
    | none => simp [Item.height, hn] at h
    | some n =>
      by_cases hle : n ≤ m.values.length
      · exact ⟨n, hn, hle⟩
      · simp [Item.height, hn, hle] at h
  | beta thenBody elseBody =>
    cases hv : m.values with
    | nil => simp [Item.controlHeight, Item.height, hv] at h
    | cons v values => simp [Enough, hv]
  | eta c => simp [Item.controlHeight, Item.height] at h
  | delta c => trivial
  | marker env => trivial

/-- **An effect keeps the balance**, if functions that are called are balanced. -/
theorem Effect.controlHeight (he : Effect m i next)
    (hbody : ∀ c, .delta c ∈ m.values → ∀ h, Item.bodyHeight c.body h = some (h + 1)) {k : Nat}
    (h : Item.controlHeight (i :: m.control) m.values.length = some k) :
    Item.controlHeight next.control next.values.length = some k := by
  cases he with
  | restore env => exact h
  | close c => exact h
  | @branch thenBody elseBody body values v hv hb =>
    rw [hv, List.length_cons, Item.controlHeight_cons (fun env => Item.noConfusion),
      Option.bind_eq_some_iff] at h
    obtain ⟨n, hi, h⟩ := h
    obtain ⟨htaken, rfl⟩ := Item.bodyHeight_taken hi (hb.imp And.right And.right)
    exact (Item.controlHeight_schedule htaken m.control).trans h
  | @call text children values arity c argument env hv henv =>
    have hlen : m.values.length = values.length + 2 := congrArg List.length hv
    rw [hlen, Item.controlHeight_gamma] at h
    have hc : .delta c ∈ m.values := hv ▸ List.mem_cons_self
    exact (Item.controlHeight_schedule (hbody c hc values.length) _).trans h
  | @unroll text children values arity c hv hn =>
    obtain ⟨argument, values, rfl⟩ := List.exists_cons_of_ne_nil hn
    have hlen : m.values.length = values.length + 2 := congrArg List.length hv
    rw [hlen, Item.controlHeight_gamma] at h
    rw [← h]
    -- the function on top is taken by the first application, what it leaves by the second
    exact (Item.controlHeight_gamma none [] 0 _ (values.length + 1)).trans
      (Item.controlHeight_gamma none [] 0 m.control values.length)
  | @result kind text children operands values arity v written hv hy =>
    rw [hv, List.length_append, Item.controlHeight_cons (fun env => Item.noConfusion),
      Item.height_node hy.length_operands] at h
    exact h

/-! ## 4. Callers -/

/-- Whether the next instruction enters a function. -/
def calls (m : Machine) : Bool :=
  match m.control, m.values with
  | .node .gamma _ _ _ :: _, .delta _ :: _ => true
  | _, _ => false

/-- The states that wait after a step from `m` to `next`, the newest first.  A state that enters a
function waits for its end, until the control is shorter than at the call. -/
def waiting (m next : Machine) (callers : List Machine) : List Machine :=
  if m.calls then m :: callers
  else callers.dropWhile fun c => next.control.length < c.control.length

/-- The states of a run that wait for a function to end, after `n` steps. -/
def callers : Nat → Machine → List Machine → List Machine
  | 0, _, cs => cs
  | n + 1, m, cs =>
    match m.step with
    | .ok next => callers n next (m.waiting next cs)
    | .error _ => cs

end Machine

/-- The environments in the markers of a control, the topmost first. -/
def Item.markers (control : List Item) : List Env :=
  control.filterMap fun
    | .marker env => some env
    | _ => none

/-- The control is cut at its markers into the instructions of the function that runs, and what was
left of the control of each caller when it called. -/
inductive Machine.Stacked : List Item → List Machine → Prop where
  | last {segment : List Item} (h : ∀ env, .marker env ∉ segment) : Stacked segment []
  | caller {segment rest : List Item} {i : Item} {c : Machine} {cs : List Machine}
      (h : ∀ env, .marker env ∉ segment) (hc : c.control = i :: rest) (hr : Stacked rest cs) :
      Stacked (segment ++ .marker c.env :: rest) (c :: cs)

theorem Item.markers_eq_nil {is : List Item} (h : ∀ env, .marker env ∉ is) : markers is = [] := by
  refine List.filterMap_eq_nil_iff.mpr fun i hi => ?_
  cases i with
  | marker env => exact absurd hi (h env)
  | _ => rfl

namespace Machine.Stacked

variable {control is rest : List Item} {i : Item} {c : Machine} {cs : List Machine}

/-- **The markers hold the environments of the callers.** -/
theorem markers_eq (h : Stacked control cs) : Item.markers control = cs.map Machine.env := by
  induction h with
  | last h => exact Item.markers_eq_nil h
  | @caller segment rest _ c _ h _ _ ih =>
    have hsegment := Item.markers_eq_nil h
    rw [Item.markers] at hsegment ih ⊢
    rw [List.filterMap_append, hsegment, List.map_cons, ← ih]
    rfl

/-- Instructions on top belong to the function that runs. -/
theorem append (h : Stacked rest cs) (hi : ∀ env, .marker env ∉ is) : Stacked (is ++ rest) cs := by
  have hunmarked : ∀ segment : List Item, (∀ env, .marker env ∉ segment) →
      ∀ env, .marker env ∉ is ++ segment := by
    intro segment hs env hmem
    rcases List.mem_append.mp hmem with hmem | hmem
    · exact hi env hmem
    · exact hs env hmem
  cases h with
  | last hs => exact .last (hunmarked _ hs)
  | caller hs hc hr =>
    rw [← List.append_assoc]
    exact .caller (hunmarked _ hs) hc hr

/-- An instruction that is taken belonged to the function that runs. -/
theorem tail (h : Stacked (i :: rest) cs) (hi : ∀ env, i ≠ .marker env) : Stacked rest cs := by
  generalize hcontrol : i :: rest = control at h
  cases h with
  | last hs =>
    subst hcontrol
    exact .last fun env hmem => hs env (List.mem_cons_of_mem i hmem)
  | @caller segment _ _ c _ hs hc hr =>
    cases segment with
    | nil => exact absurd (List.cons.inj hcontrol).1 (hi c.env)
    | cons j segment =>
      cases hcontrol
      exact .caller (fun env hmem => hs env (List.mem_cons_of_mem _ hmem)) hc hr

/-- A marker that is taken is that of the newest caller, and what is left is what that one left. -/
theorem of_marker {env : Env} (h : Stacked (.marker env :: rest) cs) :
    ∃ i c callers, cs = c :: callers ∧ c.control = i :: rest ∧ c.env = env ∧
      Stacked rest callers := by
  generalize hcontrol : .marker env :: rest = control at h
  cases h with
  | last hs =>
    subst hcontrol
    exact absurd List.mem_cons_self (hs env)
  | @caller segment _ i c callers hs hc hr =>
    cases segment with
    | nil =>
      cases hcontrol
      exact ⟨i, c, callers, rfl, hc, rfl, hr⟩
    | cons j segment =>
      cases hcontrol
      exact absurd List.mem_cons_self (hs env)

/-- While the control of the newest caller is not reached, all callers wait. -/
theorem waiting_eq {m next : Machine} (h : Stacked next.control cs) (hm : m.calls = false) :
    m.waiting next cs = cs := by
  rw [Machine.waiting, hm, if_neg Bool.false_ne_true]
  generalize next.control = control at h
  cases h with
  | last hs => rfl
  | @caller segment rest i c _ hs hc hr =>
    have hlong : ¬ (segment ++ .marker c.env :: rest).length < c.control.length := by
      rw [hc, List.length_append, List.length_cons, List.length_cons]
      omega
    exact List.dropWhile_cons_of_neg fun h => hlong (of_decide_eq_true h)

/-- When the control of the newest caller is reached, that one goes on and the others wait. -/
theorem waiting_cons {m next : Machine} (h : Stacked next.control cs) (hm : m.calls = false)
    (hc : c.control = i :: next.control) : m.waiting next (c :: cs) = cs := by
  have hshort : next.control.length < c.control.length := by
    rw [hc]
    exact Nat.lt_succ_self _
  have hdrop : m.waiting next (c :: cs) = m.waiting next cs := by
    rw [Machine.waiting, Machine.waiting, hm, if_neg Bool.false_ne_true,
      if_neg Bool.false_ne_true]
    exact List.dropWhile_cons_of_pos (decide_eq_true hshort)
  rw [hdrop, h.waiting_eq hm]

end Machine.Stacked

/-! ## 5. Discipline in a step -/

namespace Machine

variable {m next : Machine} {cs : List Machine}

/-- A state that is balanced, with the callers that wait in it. -/
structure Disciplined (m : Machine) (cs : List Machine) : Prop where
  balanced : m.Balanced
  stacked : Stacked m.control cs
  outermost : (m.env :: cs.map Machine.env).getLast? = some Env.empty

theorem calls_eq_true {text : Option String} {children rest values : List Item} {arity : Nat}
    {c : Closure} (hc : m.control = .node .gamma text children arity :: rest)
    (hv : m.values = .delta c :: values) : m.calls = true := by
  simp [calls, hc, hv]

/-- Only an application enters a function. -/
theorem calls_eq_false_of_ne {i : Item} {rest : List Item} (hc : m.control = i :: rest)
    (hi : ∀ text children arity, i ≠ .node .gamma text children arity) : m.calls = false := by
  unfold calls
  split
  · rename_i hg _
    exact absurd (List.cons.inj (hc.symm.trans hg)).1 (hi _ _ _)
  · rfl

/-- Only a function is entered. -/
theorem calls_eq_false_of_values (hv : ∀ c values, m.values ≠ .delta c :: values) :
    m.calls = false := by
  unfold calls
  split
  · rename_i hd
    exact absurd hd (hv _ _)
  · rfl

theorem calls_eq_false_of_result {kind : Kind} {text : Option String}
    {children operands rest values : List Item} {arity : Nat} {v : Item} {written : String}
    (hc : m.control = .node kind text children arity :: rest) (hv : m.values = operands ++ values)
    (hy : Yields m.env (.node kind text children arity) operands v written) :
    m.calls = false := by
  by_cases hk : kind = .gamma
  · exact calls_eq_false_of_values fun c vs hd => hy.not_call hk c values vs (hv.symm.trans hd)
  · refine calls_eq_false_of_ne hc fun text' children' arity' heq => ?_
    injection heq with hkind
    exact hk hkind

/-- A step in which the function that runs goes on. -/
theorem Disciplined.go_on (hd : Disciplined m cs) (hcalls : m.calls = false)
    (hbalanced : next.Balanced) (henv : next.env = m.env) (hstacked : Stacked next.control cs) :
    Disciplined next (m.waiting next cs) := by
  rw [hstacked.waiting_eq hcalls]
  refine ⟨hbalanced, hstacked, ?_⟩
  rw [henv]
  exact hd.outermost

/-- **A step keeps the discipline.** -/
theorem Disciplined.step {t : Tree} (hm : Lexical t m) (hd : Disciplined m cs)
    (hbusy : m.control ≠ []) (hs : m.step = .ok next) :
    Disciplined next (m.waiting next cs) := by
  obtain ⟨i, rest, hc⟩ := List.exists_cons_of_ne_nil hbusy
  have he : Effect (m.take rest) i next := effect_of_step hc hs
  have hheight : Item.controlHeight (i :: rest) m.values.length = some 1 := by
    rw [← hc]
    exact hd.balanced
  have hstacked : Stacked (i :: rest) cs := hc ▸ hd.stacked
  have hbalanced : next.Balanced := he.controlHeight (fun c hv h => hm.height_of_mem hv h) hheight
  -- The heights are settled for all effects at once.  What is left are the markers: a call puts one
  -- on the control, a return takes one off, and no other effect writes or removes any.
  cases he with
  | restore env =>
    obtain ⟨j, c, callers, rfl, hcc, rfl, hrest⟩ := hstacked.of_marker
    have hcalls : m.calls = false := calls_eq_false_of_ne hc fun _ _ _ => Item.noConfusion
    have hwaiting : m.waiting { m.take rest with env := c.env } (c :: callers) = callers :=
      Stacked.waiting_cons hrest hcalls hcc
    rw [hwaiting]
    refine ⟨hbalanced, hrest, ?_⟩
    have houter := hd.outermost
    rwa [List.map_cons, List.getLast?_cons_cons] at houter
  | close c =>
    have hcalls : m.calls = false := calls_eq_false_of_ne hc fun _ _ _ => Item.noConfusion
    exact hd.go_on hcalls hbalanced rfl (hstacked.tail fun env => Item.noConfusion)
  | @branch thenBody elseBody body values v hv hb =>
    have hcalls : m.calls = false := calls_eq_false_of_ne hc fun _ _ _ => Item.noConfusion
    have hunmarked : ∀ env, .marker env ∉ body.reverse := by
      have hlen : m.values.length = values.length + 1 := congrArg List.length hv
      rw [hlen, Item.controlHeight_cons (fun env => Item.noConfusion),
        Option.bind_eq_some_iff] at hheight
      obtain ⟨k, hi, -⟩ := hheight
      have htaken := Item.bodyHeight_taken hi (hb.imp And.right And.right)
      simpa using Item.unmarked_of_bodyHeight htaken.1
    exact hd.go_on hcalls hbalanced rfl
      ((hstacked.tail fun env => Item.noConfusion).append hunmarked)
  | @call text children values arity c argument env hv henv =>
    have hmem : .delta c ∈ (m.take rest).values := hv ▸ List.mem_cons_self
    have hunmarked := Item.unmarked_of_bodyHeight (hm.height_of_mem hmem 0)
    have hcalls : m.calls = true := calls_eq_true hc hv
    rw [waiting, hcalls, if_pos rfl]
    refine ⟨hbalanced, .caller ?_ hc (hstacked.tail fun env => Item.noConfusion), ?_⟩
    · simpa using hunmarked
    · rw [List.map_cons, List.getLast?_cons_cons]
      exact hd.outermost
  | @unroll text children values arity c hv hn =>
    have hcalls : m.calls = false :=
      calls_eq_false_of_values fun c' vs hd => Item.noConfusion (List.cons.inj (hv.symm.trans hd)).1
    have htail : Stacked rest cs := hstacked.tail fun env => Item.noConfusion
    have hunmarked : ∀ env, Item.marker env ∉ [.plain .gamma, .plain .gamma] := by
      simp [Item.plain]
    exact hd.go_on hcalls hbalanced rfl (htail.append hunmarked)
  | @result kind text children operands values arity v written hv hy =>
    exact hd.go_on (calls_eq_false_of_result hc hv hy) hbalanced rfl
      (hstacked.tail fun env => Item.noConfusion)

/-! ## 6. Runs -/

/-- **A run keeps the discipline.** -/
theorem Disciplined.steps {t : Tree} (h : t.IsCore) {n : Nat} {last : Machine}
    (hsteps : Steps n m last) (hm : Lexical t m) :
    ∀ {cs : List Machine}, Disciplined m cs → Disciplined last (callers n m cs) := by
  induction hsteps with
  | refl m => exact fun hd => hd
  | @head n m next last busy step rest ih =>
    intro cs hd
    simp only [callers, step]
    exact ih (hm.step h busy step) (hd.step hm busy step)

theorem disciplined_start (t : Tree) :
    Disciplined (start (Control.root (t.sites.map (Control.structureOf t.number)))) [] := by
  have hbody : Item.bodyHeight (Control.bodyOf t.number t.root) 0 = some 1 := Core.height_code 0 _
  have hcontrol : (start (Control.root (t.sites.map (Control.structureOf t.number)))).control =
      (Control.bodyOf t.number t.root).reverse ++ [] := by
    rw [start_control, List.append_nil]
  refine ⟨?_, ?_, rfl⟩
  · rw [Balanced, hcontrol]
    exact Item.controlHeight_schedule hbody []
  · rw [hcontrol, List.append_nil]
    exact .last (by simpa using Item.unmarked_of_bodyHeight hbody)

/-- A disciplined state does not fail for a reason of the machine's own. -/
theorem Disciplined.not_ofMachine (hd : Disciplined m cs) {f : Failure} (hf : Fails m f) :
    ¬ f.OfMachine := by
  obtain ⟨hbusy, hs⟩ := hf
  obtain ⟨i, rest, hc⟩ := List.exists_cons_of_ne_nil hbusy
  have hheight : Item.controlHeight (i :: rest) m.values.length = some 1 := by
    rw [← hc]
    exact hd.balanced
  have henough : Enough (m.take rest) i := enough_of_controlHeight hheight
  exact (refusal_of_step hc hs).not_ofMachine henough

/-- A disciplined state with an empty control holds just the result. -/
theorem Disciplined.of_control_nil (hd : Disciplined m cs) (hc : m.control = []) :
    (∃ v, m.values = [v]) ∧ m.env = Env.empty := by
  obtain ⟨hbalanced, hstacked, houter⟩ := hd
  constructor
  · rw [Balanced, hc] at hbalanced
    exact List.length_eq_one_iff.mp (Option.some.inj hbalanced)
  · generalize m.control = control at hc hstacked
    cases hstacked with
    | last hs => exact Option.some.inj houter
    | caller hs hcc hr => exact absurd hc (by simp)

end Machine

/-- **The stack discipline of runs.**  In every state of a run of a program the control is balanced
against the values, and its markers hold the environments of the states that wait for a function
to end, down to the empty environment in which the program started.  So no run fails for a reason
of the machine's own, and where the control is empty there is just one value, and the environment
is the empty one. -/
theorem disciplined_of_steps {filename source : String} {raw t : Tree} {cs : List Closure} {n : Nat}
    {m : Machine} (hparse : Program.parse filename source = .ok raw)
    (hstandard : raw.standardize = .ok t) (hcs : Control.structures t = .ok cs)
    (hm : Machine.Steps n (Machine.start (Control.root cs)) m) :
    m.Balanced ∧
      Item.markers m.control =
        (Machine.callers n (Machine.start (Control.root cs)) []).map Machine.env ∧
      (m.env :: Item.markers m.control).getLast? = some Env.empty ∧
      (∀ f, Machine.Fails m f → ¬ f.OfMachine) ∧
      (∀ budget r f, m.run budget = some r → r.answer = .error f → ¬ f.OfMachine) ∧
      (m.control = [] → (∃ v, m.values = [v]) ∧ m.env = Env.empty) := by
  obtain ⟨hcore, rfl⟩ := Tree.IsRaw.structures (Tree.isRaw_of_parse hparse) hstandard hcs
  have hd := (Machine.disciplined_start t).steps hcore hm (lexical_start t)
  have hlexical : Lexical t m :=
    hm.invariant (fun m next hm hbusy hs => hm.step hcore hbusy hs) (lexical_start t)
  refine ⟨hd.balanced, hd.stacked.markers_eq, ?_, fun f hf => hd.not_ofMachine hf, ?_,
    hd.of_control_nil⟩
  · rw [hd.stacked.markers_eq]
    exact hd.outermost
  · intro budget r f hr hf
    obtain ⟨k, last, hlast, ⟨hc, rfl⟩ | ⟨g, hg, rfl⟩⟩ := Machine.steps_of_run hr
    · -- the result of an empty control is its value
      obtain ⟨⟨v, hv⟩, -⟩ := (hd.steps hcore hlast hlexical).of_control_nil hc
      simp [Machine.finish, hv] at hf
    · cases hf
      exact (hd.steps hcore hlast hlexical).not_ofMachine hg

/-- A program with an inner definition and a recursive function, while three states wait. -/
theorem disciplined_of_steps_recursion : ∃ raw t cs m,
    Program.parse "list"
      "let z = false within rec f (b, r) = b -> f (z, r aug b) | r in f (true, nil)" = .ok raw ∧
    raw.standardize = .ok t ∧ Control.structures t = .ok cs ∧
    Machine.Steps 32 (Machine.start (Control.root cs)) m ∧
    (Machine.callers 32 (Machine.start (Control.root cs)) []).length = 3 ∧
    m.Balanced ∧
    Item.markers m.control =
      (Machine.callers 32 (Machine.start (Control.root cs)) []).map Machine.env := by
  obtain ⟨raw, t, cs, hparse, hstandard, hcs, htest⟩ := exists_structures "list"
    "let z = false within rec f (b, r) = b -> f (z, r aug b) | r in f (true, nil)"
    (fun m => (m.run 32).isNone && (m.callers 32 []).length == 3) (by decide +kernel)
  rw [Bool.and_eq_true, beq_iff_eq] at htest
  obtain ⟨m, hm, -⟩ := Machine.steps_of_run_eq_none (Option.isNone_iff_eq_none.mp htest.1)
  have h := disciplined_of_steps hparse hstandard hcs hm
  exact ⟨raw, t, cs, m, hparse, hstandard, hcs, hm, htest.2, h.1, h.2.1⟩

end Rpal
