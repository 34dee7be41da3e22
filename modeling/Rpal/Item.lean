/-
# Items of the machine

The machine keeps instructions on its control and values on its value stack, and the two share
one type: a literal is an instruction that becomes a value as it is.

    node     a plain instruction or value: a literal, a name, an operator, a tuple, ...
    delta    a function: a control structure, with an environment once it is a value
    beta     the two branches of a conditional
    eta      a function that `Y*` has made recursive
    marker   restores an environment when the body of a function is done

A name of a built-in function may have children: the arguments it has so far.

An environment is a chain of frames, each a list of bindings, the newest first.  It is
immutable: a function keeps the environment it was made in.
-/
import Rpal.Kind
import Rpal.Variable

namespace Rpal

mutual

/-- An instruction or a value. -/
inductive Item where
  | node (kind : Kind) (text : Option String) (children : List Item) (arity : Nat)
  | delta (closure : Closure)
  | beta (thenBody elseBody : List Item)
  | eta (closure : Closure)
  | marker (env : Env)

/-- A control structure: its number, the names it binds, and its body, a stack whose top is at
the end of the list.  `env` is the environment it was met in, or `Env.absent` before that. -/
structure Closure where
  index : Nat
  names : List Variable
  body : List Item
  env : Env

/-- A chain of frames. -/
inductive Env where
  /-- No environment at all; the chain of every environment ends here. -/
  | absent
  /-- A new frame without bindings. -/
  | frame (parent : Env)
  /-- A further binding in the newest frame. -/
  | binding (name : Variable) (value : Item) (rest : Env)

end

instance : Inhabited Item := ⟨.node .dummy none [] 0⟩

instance : Inhabited Closure := ⟨0, [], [], .absent⟩

namespace Item

/-! ## 1. Making items -/

/-- An item of a kind, with neither text nor children. -/
def plain (kind : Kind) : Item := .node kind none [] 0

/-- An item with a text. -/
def literal (kind : Kind) (text : String) : Item := .node kind (some text) [] 0

/-- A string value. -/
def string (text : String) : Item := literal .string text

/-- A truth value. -/
def truth (b : Bool) : Item := plain (if b then .trueValue else .falseValue)

/-- The value of an expression without a result. -/
def dummy : Item := plain .dummy

/-- A tuple. -/
def tuple (components : List Item) : Item := .node .tuple none components 0

/-! ## 2. Looking at items -/

/-- The kind of an item. -/
def kind : Item → Kind
  | .node kind _ _ _ => kind
  | .delta _ => .delta
  | .beta _ _ => .beta
  | .eta _ => .eta
  | .marker _ => .env

/-- The text of an item. -/
def text : Item → Option String
  | .node _ text _ _ => text
  | _ => none

/-- The children of an item: the components of a tuple, the arguments of a built-in name. -/
def children : Item → List Item
  | .node _ _ children _ => children
  | _ => []

/-- The label of an item, as in a printed tree. -/
def label (i : Item) : String := i.kind.label i.text

/-- The kind of an item as messages name it. -/
def spoken (i : Item) : String := i.kind.spoken

end Item

/-! ## 3. Copies

A value is copied when it is bound to a name and again when the name is looked up.  The copy
of a tuple has its components and nothing else; every other item is copied as it is, and the
environment of a function is shared. -/

mutual

/-- The copy of an item. -/
def Item.copy : Item → Item
  | .node kind text children arity =>
    if kind = .tuple then .node .tuple none (Item.copyAll children) 0
    else .node kind text (Item.copyAll children) arity
  | .delta closure => .delta closure.copy
  | .beta thenBody elseBody => .beta (Item.copyAll thenBody) (Item.copyAll elseBody)
  | .eta closure => .eta closure.copy
  | .marker env => .marker env

/-- The copies of several items. -/
def Item.copyAll : List Item → List Item
  | [] => []
  | i :: is => i.copy :: Item.copyAll is

/-- The copy of a control structure. -/
def Closure.copy : Closure → Closure
  | ⟨index, names, body, env⟩ => ⟨index, names, Item.copyAll body, env⟩

end

/-- Several items are copied one by one. -/
theorem Item.copyAll_eq_map (is : List Item) : Item.copyAll is = is.map Item.copy := by
  induction is with
  | nil => rfl
  | cons i is ih => simp [Item.copyAll, ih]

/-- A tuple of copies is the copy of the tuple. -/
theorem Item.copy_tuple (components : List Item) :
    (Item.tuple components).copy = Item.tuple (components.map Item.copy) := by
  simp [Item.tuple, Item.copy, Item.copyAll_eq_map]

/-! ## 4. Equality -/

mutual

/-- Whether two items agree in every part. -/
def Item.same : Item → Item → Bool
  | .node k t cs a, .node k' t' cs' a' => k == k' && t == t' && Item.sameAll cs cs' && a == a'
  | .delta c, .delta c' => c.same c'
  | .beta t e, .beta t' e' => Item.sameAll t t' && Item.sameAll e e'
  | .eta c, .eta c' => c.same c'
  | .marker e, .marker e' => e.same e'
  | _, _ => false

/-- Whether two lists of items agree one by one. -/
def Item.sameAll : List Item → List Item → Bool
  | [], [] => true
  | i :: is, i' :: is' => i.same i' && Item.sameAll is is'
  | _, _ => false

/-- Whether two control structures agree in every part. -/
def Closure.same : Closure → Closure → Bool
  | ⟨i, ns, b, e⟩, ⟨i', ns', b', e'⟩ => i == i' && ns == ns' && Item.sameAll b b' && e.same e'

/-- Whether two environments agree in every part. -/
def Env.same : Env → Env → Bool
  | .absent, .absent => true
  | .frame p, .frame p' => p.same p'
  | .binding n v r, .binding n' v' r' => n == n' && v.same v' && r.same r'
  | _, _ => false

end

end Rpal
