/-
# Environments that grow

Frames stay open: a name can be bound in a frame long after frames were created below it.  So what
a name means depends on all that happened, and on the order:

    create none         frame 0
    create (some 0)     frame 1
    bind 0 x 'a'        `x` is 'a' in both
    create (some 1)     frame 2, where it is 'a' as well
    bind 1 x 'b'        now it is 'b' in the frames 1 and 2, and still 'a' in frame 0

The frames from a frame to its root are its lineage.  An ascent is a fold over them
(`ascend_eq_foldr`), and what a frame holds is what was bound there last (`binding?_replay`).  So a
name means its latest value in the nearest frame of the lineage that has one, and a further binding
is seen from below unless a nearer frame hides it (`laws_of_replay`).  Reading the lineage as one
environment comes to the same (`lookup_eq_chain`).
-/
import Mathlib.Data.List.Basic
import Rpal.Environment.Forest
import Rpal.Proofs.Item.Copying

namespace Rpal.Forest

variable {α : Type} {root : α} {visit : ForestFrame → α → α} {number other : Nat}
  {frames : List ForestFrame}

/-! ## 1. Frames and lineages -/

/-- A frame of a list whose last frame has number 0; one without bindings if it is not there. -/
def frameIn (number : Nat) : List ForestFrame → ForestFrame
  | [] => ⟨none, []⟩
  | frame :: older => if number = older.length then frame else frameIn number older

/-- The frames from a frame to its root, by number. -/
def lineageIn (number : Nat) : List ForestFrame → List Nat
  | [] => []
  | frame :: older =>
    if number = older.length then
      number :: (match frame.parent with
        | some parent => lineageIn parent older
        | none => [])
    else lineageIn number older

/-- The frames from a frame to its root, by number. -/
def lineage (number : Nat) (f : Forest) : List Nat := lineageIn number f.frames

theorem lt_of_mem_lineageIn (h : other ∈ lineageIn number frames) : other < frames.length := by
  induction frames generalizing number with
  | nil => cases h
  | cons frame older ih =>
    rw [lineageIn] at h
    split at h
    · rename_i hnumber
      rcases List.mem_cons.mp h with rfl | h
      · exact hnumber ▸ Nat.lt_succ_self _
      · split at h
        · exact Nat.lt_succ_of_lt (ih h)
        · cases h
    · exact Nat.lt_succ_of_lt (ih h)

theorem frameIn_cons_of_lt (h : number < frames.length) (frame : ForestFrame) :
    frameIn number (frame :: frames) = frameIn number frames := by
  rw [frameIn, if_neg (Nat.ne_of_lt h)]

/-- **An ascent** visits the frames of the lineage. -/
theorem ascend_eq_foldr (root : α) (visit : ForestFrame → α → α) (number : Nat)
    (frames : List ForestFrame) : ascend root visit number frames =
      (lineageIn number frames).foldr (fun i above => visit (frameIn i frames) above) root := by
  induction frames generalizing number with
  | nil => rfl
  | cons frame older ih =>
    -- the frames further up do not change with their place in the list
    have hup : ∀ number, ascend root visit number older = (lineageIn number older).foldr
        (fun i above => visit (frameIn i (frame :: older)) above) root := by
      intro number
      rw [ih]
      refine List.foldr_ext _ _ _ fun i hi above => ?_
      rw [frameIn_cons_of_lt (lt_of_mem_lineageIn hi)]
    rw [ascend, lineageIn]
    split
    · rename_i hnumber
      rw [List.foldr_cons, frameIn, if_pos hnumber]
      cases frame.parent with
      | none => rfl
      | some parent => exact congrArg (visit frame) (hup parent)
    · exact hup number

/-! ## 2. Bindings -/

theorem binding?_append (frame : ForestFrame) (n name : Variable) (value : Item) :
    ({ frame with bindings := frame.bindings ++ [(n, value)] } : ForestFrame).binding? name =
      if n = name then some value else frame.binding? name := by
  simp only [ForestFrame.binding?, List.reverse_append, List.reverse_singleton,
    List.singleton_append, List.find?_cons]
  by_cases hn : n = name <;> simp [hn]

theorem any_bindings (frame : ForestFrame) (name : Variable) :
    frame.bindings.any (fun b => b.1 = name) = (frame.binding? name).isSome := by
  rw [ForestFrame.binding?, Option.isSome_map, Bool.eq_iff_iff, List.any_eq_true,
    List.find?_isSome]
  simp only [List.mem_reverse]

theorem frameIn_bindIn (hother : other < frames.length) (name : Variable) (value : Item) :
    frameIn number (bindIn other name value frames) =
      let frame := frameIn number frames
      if number = other then { frame with bindings := frame.bindings ++ [(name, value.copy)] }
      else frame := by
  induction frames with
  | nil => cases hother
  | cons frame older ih =>
    rw [bindIn]
    split
    · rename_i htop
      rw [htop, frameIn, frameIn]
      split <;> simp_all
    · rename_i htop
      have hlt : other < older.length :=
        Nat.lt_of_le_of_ne (Nat.le_of_lt_succ hother) htop
      rw [frameIn, frameIn, length_bindIn]
      split
      · rename_i hnumber
        rw [if_neg (hnumber ▸ Ne.symm htop)]
      · exact ih hlt

theorem lineageIn_bindIn (number other : Nat) (name : Variable) (value : Item)
    (frames : List ForestFrame) :
    lineageIn number (bindIn other name value frames) = lineageIn number frames := by
  induction frames generalizing number with
  | nil => rfl
  | cons frame older ih =>
    rw [bindIn]
    split
    · rfl
    · rw [lineageIn, lineageIn, length_bindIn, ih]
      cases frame.parent with
      | none => rfl
      | some parent => simp only [ih]

/-- **A binding is not seen** from frames whose lineage it is not in. -/
theorem ascend_bindIn_of_notMem (hother : other < frames.length)
    (h : other ∉ lineageIn number frames) (name : Variable) (value : Item) :
    ascend root visit number (bindIn other name value frames) = ascend root visit number frames := by
  rw [ascend_eq_foldr, ascend_eq_foldr, lineageIn_bindIn]
  refine List.foldr_ext _ _ _ fun i hi above => ?_
  have hne : i ≠ other := fun heq => h (heq ▸ hi)
  simp only [frameIn_bindIn hother, if_neg hne]

/-- A name that was just bound in a frame means a copy of the value there. -/
theorem lookup_bind_self {f : Forest} (h : number < f.frames.length) (name : Variable)
    (value : Item) : (f.bind number name value).lookup number name = .ok value.copy := by
  obtain ⟨frames⟩ := f
  rw [lookup, bind]
  induction frames with
  | nil => cases h
  | cons frame older ih =>
    rw [bindIn]
    split
    · rename_i htop
      simp only [ascend, if_pos htop, binding?_append, if_true, Item.copy_copy]
    · rename_i htop
      rw [ascend, length_bindIn, if_neg htop]
      exact ih (Nat.lt_of_le_of_ne (Nat.le_of_lt_succ h) htop)

/-! ## 3. Chains -/

/-- A new frame on top of an environment, with the bindings of a frame. -/
def onTop (frame : ForestFrame) (above : Env) : Env :=
  frame.bindings.foldl (fun env (name, value) => .binding name value env) (.frame above)

theorem chain_eq_ascend (number : Nat) (f : Forest) :
    f.chain number = ascend .absent onTop number f.frames := by
  rw [chain]
  induction f.frames generalizing number with
  | nil => rfl
  | cons frame older ih =>
    rw [chainIn, ascend]
    split
    · cases frame.parent with
      | none => rfl
      | some parent => simp only [ih, onTop]
    · exact ih number

theorem binding?_onTop (frame : ForestFrame) (above : Env) (name : Variable) :
    (onTop frame above).binding? name = (frame.binding? name).or (above.binding? name) := by
  have hfold : ∀ (bindings : List (Variable × Item)) (env : Env),
      (bindings.foldl (fun env (name, value) => .binding name value env) env).binding? name =
        ((bindings.reverse.find? fun b => b.1 = name).map (·.2)).or (env.binding? name) := by
    intro bindings
    induction bindings with
    | nil => exact fun env => rfl
    | cons b bindings ih =>
      intro env
      rw [List.foldl_cons, ih, Env.binding?, List.reverse_cons, List.find?_append, Option.map_or,
        Option.or_assoc]
      congr 1
      by_cases hb : b.1 = name <;> simp [hb]
  exact hfold frame.bindings (.frame above)

theorem frameCount_onTop (frame : ForestFrame) (above : Env) :
    (onTop frame above).frameCount = above.frameCount + 1 := by
  have hfold : ∀ (bindings : List (Variable × Item)) (env : Env),
      (bindings.foldl (fun env (name, value) => .binding name value env) env).frameCount =
        env.frameCount := by
    intro bindings
    induction bindings with
    | nil => exact fun env => rfl
    | cons b bindings ih => exact fun env => ih _
  exact hfold frame.bindings (.frame above)

/-- What is asked of the answer of an ascent can be asked on the way. -/
theorem ascend_hom {β : Type} (φ : α → β) {root : α} {visit : ForestFrame → α → α} (root' : β)
    (visit' : ForestFrame → β → β) (hroot : φ root = root')
    (hvisit : ∀ frame above, φ (visit frame above) = visit' frame (φ above)) (number : Nat)
    (frames : List ForestFrame) :
    φ (ascend root visit number frames) = ascend root' visit' number frames := by
  rw [ascend_eq_foldr, ascend_eq_foldr, ← hroot]
  exact (List.foldr_hom φ fun i above => (hvisit (frameIn i frames) above).symm).symm

/-- What a lookup answers. -/
def answer (name : Variable) : Option Item → Except Fault Item
  | some value => .ok value
  | none => .error (.unbound name)

/-- **A name looked up** from a frame is the same as in its chain. -/
theorem lookup_eq_chain (number : Nat) (name : Variable) (f : Forest) :
    f.lookup number name = answer name ((f.chain number).lookup? name) := by
  rw [chain_eq_ascend, lookup]
  refine (ascend_hom (fun env : Env => answer name (env.lookup? name)) _ _ ?root
    (fun frame above => ?visit) number f.frames).symm
  case root => rfl
  case visit =>
    simp only [Env.lookup?, binding?_onTop]
    cases frame.binding? name <;> rfl

/-- **Whether a name is bound** is the same as in the chain. -/
theorem isBound_eq_chain (number : Nat) (name : Variable) (f : Forest) :
    f.isBound number name = (f.chain number).isBound name := by
  rw [chain_eq_ascend, isBound]
  refine (ascend_hom (Env.isBound name) _ _ ?root (fun frame above => ?visit) number
    f.frames).symm
  case root => rfl
  case visit =>
    rw [Env.isBound, Env.isBound, binding?_onTop, any_bindings]
    cases frame.binding? name <;> rfl

/-- **The depth** of a frame is that of its chain. -/
theorem depth_eq_chain (number : Nat) (f : Forest) : f.depth number = (f.chain number).depth := by
  rw [chain_eq_ascend, depth, Env.depth, ascend_hom Env.frameCount 0 (fun _ above => above + 1) rfl
    fun frame above => frameCount_onTop frame above]

/-! ## 4. Histories -/

/-- What can happen to a forest. -/
inductive Event where
  | create (parent : Option Nat)
  | bind (number : Nat) (name : Variable) (value : Item)

/-- What happened to a forest, the newest event first. -/
abbrev History := List Event

/-- The forest after a history. -/
def replay : History → Forest
  | [] => {}
  | .create parent :: h => ((replay h).grow parent).2
  | .bind number name value :: h => (replay h).bind number name value

/-- The number of frames that a history creates. -/
def created : History → Nat
  | [] => 0
  | .create _ :: h => created h + 1
  | .bind _ _ _ :: h => created h

/-- Frames are created below frames that exist, and names bound in such frames. -/
def Valid : History → Prop
  | [] => True
  | .create parent :: h => (∀ p ∈ parent, p < created h) ∧ Valid h
  | .bind number _ _ :: h => number < created h ∧ Valid h

/-- The value that was bound to a name in a frame most recently. -/
def latest (number : Nat) (name : Variable) : History → Option Item
  | [] => none
  | .create _ :: h => latest number name h
  | .bind i n value :: h => if i = number ∧ n = name then some value else latest number name h

/-- The most recent value of a name in the nearest frame of a lineage that has one. -/
def nearest (number : Nat) (name : Variable) (h : History) : Option Item :=
  ((replay h).lineage number).findSome? fun i => latest i name h

variable {h : History}

theorem length_replay (h : History) : (replay h).frames.length = created h := by
  induction h with
  | nil => rfl
  | cons event h ih =>
    cases event with
    | create parent => exact congrArg (· + 1) ih
    | bind number name value => exact (length_bindIn _ _ _ _).trans ih

/-- A new frame has the lineage of its parent above it, and the other frames keep theirs. -/
theorem lineage_create (number : Nat) (parent : Option Nat) (h : History) :
    (replay (.create parent :: h)).lineage number =
      if number = created h then
        number :: (match parent with
          | some parent => (replay h).lineage parent
          | none => [])
      else (replay h).lineage number := by
  rw [← length_replay]
  rfl

/-- Bindings leave all lineages as they are. -/
theorem lineage_bind (number other : Nat) (n : Variable) (value : Item) (h : History) :
    (replay (.bind other n value :: h)).lineage number = (replay h).lineage number :=
  lineageIn_bindIn _ _ _ _ _

theorem latest_eq_none_of_le (hv : Valid h) (hnumber : created h ≤ number) (name : Variable) :
    latest number name h = none := by
  induction h with
  | nil => rfl
  | cons event h ih =>
    cases event with
    | create parent => exact ih hv.2 (Nat.le_of_succ_le hnumber)
    | bind i n value =>
      have hne : i ≠ number := Nat.ne_of_lt (Nat.lt_of_lt_of_le hv.1 hnumber)
      rw [latest, if_neg fun h => hne h.1]
      exact ih hv.2 hnumber

/-- **What a name is bound to in a frame** is a copy of its latest value there. -/
theorem binding?_replay (hv : Valid h) (number : Nat) (name : Variable) :
    (frameIn number (replay h).frames).binding? name = (latest number name h).map Item.copy := by
  induction h with
  | nil => rfl
  | cons event h ih =>
    cases event with
    | create parent =>
      rw [replay, grow, frameIn, latest]
      split
      · rename_i hnumber
        rw [length_replay] at hnumber
        rw [latest_eq_none_of_le hv.2 (Nat.le_of_eq hnumber.symm)]
        rfl
      · exact ih hv.2
    | bind i n value =>
      have hi : i < (replay h).frames.length := by
        rw [length_replay]
        exact hv.1
      rw [replay, bind, frameIn_bindIn hi, latest]
      by_cases hnumber : number = i
      · subst hnumber
        simp only [if_true, binding?_append, true_and, ih hv.2]
        split <;> rfl
      · have hne : ¬ (i = number ∧ n = name) := fun heq => hnumber heq.1.symm
        simp only [if_neg hnumber, if_neg hne, ih hv.2]

/-! ## 5. Questions -/

theorem lookup_replay (hv : Valid h) (number : Nat) (name : Variable) :
    (replay h).lookup number name = answer name ((nearest number name h).map Item.copy) := by
  rw [lookup, ascend_eq_foldr, nearest, lineage]
  induction lineageIn number (replay h).frames with
  | nil => rfl
  | cons i is ih =>
    rw [List.foldr_cons, List.findSome?_cons, binding?_replay hv, ih]
    cases latest i name h with
    | none => rfl
    | some value => simp only [Option.map_some, Item.copy_copy, answer]

theorem isBound_replay (hv : Valid h) (number : Nat) (name : Variable) :
    (replay h).isBound number name = (nearest number name h).isSome := by
  rw [isBound, ascend_eq_foldr, nearest, lineage]
  induction lineageIn number (replay h).frames with
  | nil => rfl
  | cons i is ih =>
    rw [List.foldr_cons, List.findSome?_cons, any_bindings, binding?_replay hv, ih]
    cases latest i name h <;> rfl

theorem depth_replay (number : Nat) (h : History) :
    (replay h).depth number = ((replay h).lineage number).tail.length := by
  rw [depth, ascend_eq_foldr, lineage, List.length_tail]
  congr 1
  induction lineageIn number (replay h).frames with
  | nil => rfl
  | cons i is ih => rw [List.foldr_cons, ih, List.length_cons]

/-! ## 6. Bindings that are seen -/

/-- From the frame, a binding of the name in the other frame is seen: that is a frame of the
lineage, and no nearer one binds the name. -/
def Sees (number other : Nat) (name : Variable) (h : History) : Prop :=
  other ∈ (replay h).lineage number ∧
    ∀ i ∈ ((replay h).lineage number).takeWhile (· ≠ other), latest i name h = none

/-- The first answer, where one element answers anew: its answer, if none is in front of it. -/
theorem findSome?_update {β : Type} (f : Nat → Option β) (number : Nat) (value : β)
    (is : List Nat) : is.findSome? (fun i => if number = i then some value else f i) =
      if number ∈ is ∧ ∀ i ∈ is.takeWhile (· ≠ number), f i = none then some value
      else is.findSome? f := by
  induction is with
  | nil => rfl
  | cons i is ih =>
    rw [List.findSome?_cons, List.findSome?_cons]
    by_cases hi : number = i
    · subst hi
      simp
    · have hbefore : (i :: is).takeWhile (· ≠ number) = i :: is.takeWhile (· ≠ number) :=
        List.takeWhile_cons_of_pos (decide_eq_true (Ne.symm hi))
      simp only [if_neg hi, ih, hbefore, List.mem_cons, forall_eq_or_imp, or_iff_right hi]
      cases f i <;> simp

section Bind

variable {n name : Variable} (hv : Valid h) (hother : other < created h)

include hv hother

/-- A binding that is seen is what its name means. -/
theorem lookup_bind_of_sees (hsees : Sees number other n h) (value : Item) :
    (replay (.bind other n value :: h)).lookup number n = .ok value.copy := by
  have hnearest : nearest number n (.bind other n value :: h) = some value := by
    rw [nearest, lineage_bind]
    simp only [latest, and_true]
    exact (findSome?_update _ _ _ _).trans (if_pos hsees)
  rw [lookup_replay (h := .bind other n value :: h) ⟨hother, hv⟩, hnearest]
  rfl

/-- A binding that is not seen makes no difference, and neither do bindings of other names. -/
theorem lookup_bind_of_not (hnot : ¬ (name = n ∧ Sees number other n h)) (value : Item) :
    (replay (.bind other n value :: h)).lookup number name = (replay h).lookup number name := by
  have hnearest : nearest number name (.bind other n value :: h) = nearest number name h := by
    rw [nearest, lineage_bind]
    by_cases hname : name = n
    · subst hname
      simp only [latest, and_true]
      exact (findSome?_update _ _ _ _).trans (if_neg fun hsees => hnot ⟨rfl, hsees⟩)
    · simp only [latest, Ne.symm hname, and_false, if_false, nearest]
  rw [lookup_replay (h := .bind other n value :: h) ⟨hother, hv⟩, hnearest, lookup_replay hv]

theorem lookup_bind_ne_iff (value : Item) :
    (replay (.bind other n value :: h)).lookup number name ≠ (replay h).lookup number name ↔
      name = n ∧ Sees number other n h ∧ (replay h).lookup number name ≠ .ok value.copy := by
  by_cases hseen : name = n ∧ Sees number other n h
  · obtain ⟨rfl, hsees⟩ := hseen
    rw [lookup_bind_of_sees hv hother hsees]
    simp only [true_and, hsees, ne_comm]
  · rw [lookup_bind_of_not hv hother hseen]
    exact iff_of_false (fun hne => hne rfl) fun h => hseen ⟨h.1, h.2.1⟩

omit hv in
/-- A further binding is not seen from frames whose lineage it is not in, whatever is asked. -/
theorem ascend_replay_bind (hoff : other ∉ (replay h).lineage number) (value : Item) :
    ascend root visit number (replay (.bind other n value :: h)).frames =
      ascend root visit number (replay h).frames :=
  ascend_bindIn_of_notMem (by rwa [length_replay]) hoff n value

end Bind

/-- The history above, the newest event first. -/
def branching : History :=
  [.bind 1 (some "x") (.string "b"), .create (some 1), .bind 0 (some "x") (.string "a"),
    .create (some 0), .create none]

end Rpal.Forest
