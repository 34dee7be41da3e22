/-
# The printed tree determines the tree

In a printed tree every node begins a line, with as many dots in front of its label as it has
ancestors:

    let
    .=
    ..<ID:x>
    ..<STR:'a line
    .=
    .'>
    .<ID:x>

There are no closing marks, and a string may hold line feeds, dots and whatever else a label is
made of.  The printed tree can be read back all the same (`outline_injective`), for two reasons.
How a line begins tells the kind of the node (`opening`), and then where the label ends.  And no
label begins with a dot, so the dots in front of it tell the depth: behind the children of a node
comes a line with too few of them, or nothing (`Shallow`).
-/
import Rpal.Proofs.Token.Scanning
import Rpal.Proofs.Tree.Nodes

namespace Rpal

/-! ## 1. Texts in labels -/

/-- What stands in front of the first occurrence of a character can be told from what is behind. -/
theorem eq_and_eq_of_append_cons {c : Char} {cs cs' rest rest' : List Char} (h : c ∉ cs)
    (h' : c ∉ cs') (heq : cs ++ c :: rest = cs' ++ c :: rest') : cs = cs' ∧ rest = rest' := by
  induction cs generalizing cs' with
  | nil =>
    cases cs' with
    | nil => exact ⟨rfl, (List.cons.inj heq).2⟩
    | cons d cs' => exact absurd (List.mem_cons.mpr (.inl (List.cons.inj heq).1)) h'
  | cons d cs ih =>
    cases cs' with
    | nil => exact absurd (List.mem_cons.mpr (.inl (List.cons.inj heq).1.symm)) h
    | cons d' cs' =>
      obtain ⟨rfl, htail⟩ := List.cons.inj heq
      obtain ⟨rfl, hrest⟩ := ih (fun hm => h (List.mem_cons_of_mem _ hm))
        (fun hm => h' (List.mem_cons_of_mem _ hm)) htail
      exact ⟨rfl, hrest⟩

namespace Token

/-- Pairs of a backslash and any character, and characters other than quote and backslash. -/
inductive Escaped : List Char → Prop where
  | nil : Escaped []
  | pair (c : Char) {cs : List Char} (h : Escaped cs) : Escaped ('\\' :: c :: cs)
  | plain {c : Char} {cs : List Char} (hq : c ≠ '\'') (hb : c ≠ '\\') (h : Escaped cs) :
      Escaped (c :: cs)

theorem escaped_of_notMem {cs : List Char} (hq : '\'' ∉ cs) (hb : '\\' ∉ cs) : Escaped cs := by
  induction cs with
  | nil => exact .nil
  | cons c cs ih =>
    rw [List.mem_cons, not_or] at hq hb
    exact .plain (Ne.symm hq.1) (Ne.symm hb.1) (ih hq.2 hb.2)

/-- A text of this form ends at the first quote that no backslash escapes. -/
theorem Escaped.cancel {cs cs' rest rest' : List Char} (h : Escaped cs) (h' : Escaped cs')
    (heq : cs ++ '\'' :: rest = cs' ++ '\'' :: rest') : cs = cs' ∧ rest = rest' := by
  induction h generalizing cs' with
  | nil =>
    cases h' with
    | nil => exact ⟨rfl, (List.cons.inj heq).2⟩
    | pair => exact absurd (List.cons.inj heq).1 (by decide)
    | plain hq => exact absurd (List.cons.inj heq).1.symm hq
  | pair c _ ih =>
    cases h' with
    | nil => exact absurd (List.cons.inj heq).1 (by decide)
    | pair c' h' =>
      obtain ⟨rfl, htail⟩ := List.cons.inj (List.cons.inj heq).2
      obtain ⟨rfl, hrest⟩ := ih h' htail
      exact ⟨rfl, hrest⟩
    | plain _ hb => exact absurd (List.cons.inj heq).1.symm hb
  | plain hq hb _ ih =>
    cases h' with
    | nil => exact absurd (List.cons.inj heq).1 hq
    | pair => exact absurd (List.cons.inj heq).1 hb
    | plain _ _ h' =>
      obtain ⟨rfl, htail⟩ := List.cons.inj heq
      obtain ⟨rfl, hrest⟩ := ih h' htail
      exact ⟨rfl, hrest⟩

theorem IsWord.bracket_notMem {name : String} (h : IsWord name) : '>' ∉ name.toList := by
  obtain ⟨c, cs, hname, hc, hcs⟩ := h
  rw [hname, List.mem_cons, not_or]
  refine ⟨?_, fun hmem => ?_⟩
  · rintro rfl
    exact absurd hc (by decide)
  · exact absurd (hcs _ hmem) (by decide)

theorem IsDigits.bracket_notMem {digits : String} (h : IsDigits digits) :
    '>' ∉ digits.toList := by
  intro hmem
  have hdigit : Text.isDigit '>' = false := isDigit_eq_false (.inr (by decide))
  rw [h.2 _ hmem] at hdigit
  cases hdigit

end Token

/-! ## 2. Lines -/

namespace Kind

/-- The kinds without a text that a program tree is made of, before and after standardizing. -/
def textless : List Kind :=
  [.letIn, .lambda, .whereDef, .within, .conditional, .or, .and, .not, .gr, .ge, .ls, .le, .eq,
    .ne, .plus, .minus, .neg, .mult, .div, .exp, .trueValue, .falseValue, .tau, .aug, .atCall,
    .gamma, .nil, .dummy, .simultDef, .recDef, .equal, .functionForm, .paren, .comma, .yStar]

/-- All kinds that a program tree is made of. -/
def written : List Kind := .identifier :: .integer :: .string :: textless

/-- The text that a node of a program tree carries. -/
inductive Carries : Kind → Option String → Prop where
  | name {name : String} (h : Token.IsWord name) : Carries .identifier (some name)
  | digits {digits : String} (h : Token.IsDigits digits) : Carries .integer (some digits)
  | literal {raw : String} (h : Token.Escaped raw.toList) : Carries .string (some raw)
  | nothing {kind : Kind} (h : kind ∈ textless) : Carries kind none

/-- How the line of a node begins, whatever text the node carries. -/
def opening : Kind → List Char
  | identifier => ['<', 'I', 'D', ':']
  | integer => ['<', 'I', 'N', 'T', ':']
  | string => ['<', 'S', 'T', 'R', ':', '\'']
  | kind => (kind.label none).toList ++ ['\n']

/-- How the line of a node goes on, up to its end. -/
def closing : Kind → Option String → List Char
  | identifier, some text | integer, some text => text.toList ++ ['>', '\n']
  | string, some text => text.toList ++ ['\'', '>', '\n']
  | _, _ => []

variable {kind kind' : Kind} {text text' : Option String} {rest rest' : List Char}

theorem Carries.written (h : kind.Carries text) : kind ∈ written := by
  cases h with
  | name => decide
  | digits => decide
  | literal => decide
  | nothing h =>
    exact List.mem_cons_of_mem _ (List.mem_cons_of_mem _ (List.mem_cons_of_mem _ h))

theorem Carries.label_newline (h : kind.Carries text) :
    (kind.label text).toList ++ ['\n'] = kind.opening ++ kind.closing text := by
  cases h with
  | name => simp [label, opening, closing, toString]
  | digits => simp [label, opening, closing, toString]
  | literal => simp [label, opening, closing, toString]
  | nothing h =>
    have hall : ∀ k ∈ textless, (k.label none).toList ++ ['\n'] = k.opening ++ k.closing none := by
      decide +kernel
    exact hall kind h

/-- A line begins with its opening. -/
theorem Carries.line (h : kind.Carries text) (rest : List Char) :
    (kind.label text).toList ++ '\n' :: rest = kind.opening ++ (kind.closing text ++ rest) := by
  rw [← List.append_assoc, ← h.label_newline, List.append_assoc, List.singleton_append]

/-- No opening is the start of another one. -/
theorem opening_prefixFree (h : kind ∈ Kind.written) (h' : kind' ∈ Kind.written)
    (hstart : kind.opening <+: kind'.opening) : kind = kind' := by
  have hall : ∀ k ∈ Kind.written, ∀ k' ∈ Kind.written, k.opening <+: k'.opening → k = k' := by
    decide +kernel
  exact hall kind h kind' h' hstart

/-- A text in angle brackets ends at the first closing one. -/
theorem cancel_bracket {x x' : String} (h : '>' ∉ x.toList) (h' : '>' ∉ x'.toList)
    (heq : x.toList ++ ['>', '\n'] ++ rest = x'.toList ++ ['>', '\n'] ++ rest') :
    some x = some x' ∧ rest = rest' := by
  simp only [List.append_assoc, List.cons_append, List.nil_append] at heq
  obtain ⟨htext, hrest⟩ := eq_and_eq_of_append_cons h h' heq
  exact ⟨congrArg some (String.toList_injective htext), (List.cons.inj hrest).2⟩

/-- What is in a line behind the opening ends where the line ends. -/
theorem Carries.cancel_closing (h : kind.Carries text) (h' : kind.Carries text')
    (heq : kind.closing text ++ rest = kind.closing text' ++ rest') :
    text = text' ∧ rest = rest' := by
  have hnone : ∀ k ∈ textless, k ≠ .identifier ∧ k ≠ .integer ∧ k ≠ .string := by decide
  cases h with
  | name h =>
    cases h' with
    | name h' =>
      exact cancel_bracket h.bracket_notMem h'.bracket_notMem heq
    | nothing h' => exact absurd rfl (hnone _ h').1
  | digits h =>
    cases h' with
    | digits h' =>
      exact cancel_bracket h.bracket_notMem h'.bracket_notMem heq
    | nothing h' => exact absurd rfl (hnone _ h').2.1
  | literal h =>
    cases h' with
    | literal h' =>
      simp only [closing, List.append_assoc, List.cons_append, List.nil_append] at heq
      obtain ⟨htext, hrest⟩ := h.cancel h' heq
      exact ⟨congrArg some (String.toList_injective htext),
        (List.cons.inj (List.cons.inj hrest).2).2⟩
    | nothing h' => exact absurd rfl (hnone _ h').2.2
  | nothing h =>
    cases h' with
    | name => exact absurd rfl (hnone _ h).1
    | digits => exact absurd rfl (hnone _ h).2.1
    | literal => exact absurd rfl (hnone _ h).2.2
    | nothing =>
      have hclosing : ∀ k ∈ textless, k.closing none = [] := by decide
      rw [hclosing kind h] at heq
      exact ⟨rfl, heq⟩

/-- **A label can be told** from what is behind it. -/
theorem Carries.cancel (h : kind.Carries text) (h' : kind'.Carries text')
    (heq : (kind.label text).toList ++ '\n' :: rest = (kind'.label text').toList ++ '\n' :: rest') :
    kind = kind' ∧ text = text' ∧ rest = rest' := by
  rw [h.line, h'.line] at heq
  have hkind : kind = kind' := by
    have hstart : kind'.opening <+: kind.opening ++ (kind.closing text ++ rest) :=
      heq ▸ List.prefix_append _ _
    rcases List.prefix_or_prefix_of_prefix (List.prefix_append _ _) hstart with hle | hle
    · exact opening_prefixFree h.written h'.written hle
    · exact (opening_prefixFree h'.written h.written hle).symm
  subst hkind
  exact ⟨rfl, h.cancel_closing h' (List.append_cancel_left heq)⟩

/-- No label begins with a dot. -/
theorem Carries.head_line (h : kind.Carries text) (rest : List Char) :
    ((kind.label text).toList ++ '\n' :: rest).head? ≠ some '.' := by
  have hall : ∀ k ∈ Kind.written, k.opening ≠ [] ∧ k.opening.head? ≠ some '.' := by decide +kernel
  obtain ⟨hne, hdot⟩ := hall kind h.written
  rw [h.line, List.head?_append_of_ne_nil _ hne]
  exact hdot

end Kind

/-! ## 3. Trees -/

namespace Tree

/-- A node as it stands in a program tree: its text is one that the kind carries. -/
structure Printable (n : Tree) : Prop where
  carries : n.kind.Carries n.text
  arity : n.arity = 0

/-- The text does not begin with as many dots. -/
def Shallow (depth : Nat) (cs : List Char) : Prop := ¬ List.replicate depth '.' <+: cs

variable {depth : Nat} {t t' : Tree} {ts ts' : List Tree} {rest rest' : List Char}

theorem toList_outlineAt (depth : Nat) (t : Tree) : (outlineAt depth t).toList =
    List.replicate depth '.' ++
      (t.label.toList ++ '\n' :: (outlineAllAt (depth + 1) t.children).toList) := by
  obtain ⟨kind, text, children, arity⟩ := t
  simp [outlineAt, label]

theorem Shallow.succ (h : Shallow depth rest) : Shallow (depth + 1) rest := by
  intro hdots
  refine h (List.IsPrefix.trans ?_ hdots)
  rw [List.replicate_succ']
  exact List.prefix_append _ _

/-- A tree at one depth is shallow for the next. -/
theorem shallow_outlineAt (h : t.Every Printable) (depth : Nat) (rest : List Char) :
    Shallow (depth + 1) ((outlineAt depth t).toList ++ rest) := by
  intro hdots
  rw [toList_outlineAt, List.replicate_succ', List.append_assoc, List.prefix_append_right_inj,
    List.append_assoc] at hdots
  obtain ⟨more, hmore⟩ := hdots
  have hhead := h.root.carries.head_line ((outlineAllAt (depth + 1) t.children).toList ++ rest)
  simp only [label, List.cons_append, List.nil_append] at hmore
  rw [← hmore] at hhead
  exact hhead rfl

theorem shallow_outlineAllAt (h : ∀ t ∈ ts, t.Every Printable) (hrest : Shallow depth rest) :
    Shallow (depth + 1) ((outlineAllAt depth ts).toList ++ rest) := by
  cases ts with
  | nil => exact hrest.succ
  | cons t ts =>
    rw [outlineAllAt, String.toList_append, List.append_assoc]
    exact shallow_outlineAt (h t List.mem_cons_self) depth _

/-- At every depth the printed tree can be told from what is behind it, if that is shallow. -/
def Separable (t : Tree) : Prop :=
  ∀ (depth : Nat) (t' : Tree) (rest rest' : List Char), t.Every Printable → t'.Every Printable →
    Shallow (depth + 1) rest → Shallow (depth + 1) rest' →
    (outlineAt depth t).toList ++ rest = (outlineAt depth t').toList ++ rest' →
    t = t' ∧ rest = rest'

/-- No tree at some depth is printed at the start of a text that is shallow for it. -/
theorem eq_nil_of_shallow (h : Shallow depth rest)
    (heq : rest = (outlineAllAt depth ts).toList ++ rest') : ts = [] := by
  cases ts with
  | nil => rfl
  | cons t ts =>
    refine absurd ?_ h
    rw [heq, outlineAllAt, String.toList_append, toList_outlineAt, List.append_assoc,
      List.append_assoc]
    exact List.prefix_append _ _

/-- Neighbours can be told from what is behind them. -/
theorem separable_all (hsep : ∀ t ∈ ts, t.Separable) (h : ∀ t ∈ ts, t.Every Printable)
    (h' : ∀ t ∈ ts', t.Every Printable) (hrest : Shallow depth rest) (hrest' : Shallow depth rest')
    (heq : (outlineAllAt depth ts).toList ++ rest = (outlineAllAt depth ts').toList ++ rest') :
    ts = ts' ∧ rest = rest' := by
  induction ts generalizing ts' with
  | nil =>
    obtain rfl := eq_nil_of_shallow hrest heq
    exact ⟨rfl, heq⟩
  | cons t ts ih =>
    cases ts' with
    | nil => exact absurd (eq_nil_of_shallow hrest' heq.symm) (List.cons_ne_nil _ _)
    | cons t' ts' =>
      rw [List.forall_mem_cons] at hsep h h'
      simp only [outlineAllAt, String.toList_append, List.append_assoc] at heq
      obtain ⟨rfl, htail⟩ := hsep.1 depth t' _ _ h.1 h'.1 (shallow_outlineAllAt h.2 hrest)
        (shallow_outlineAllAt h'.2 hrest') heq
      obtain ⟨rfl, hrest⟩ := ih hsep.2 h.2 h'.2 htail
      exact ⟨rfl, hrest⟩

theorem separable (t : Tree) : t.Separable := by
  induction t using induction with
  | node t ih =>
    intro depth t' rest rest' h h' hrest hrest' heq
    simp only [toList_outlineAt, List.append_assoc, List.append_cancel_left_eq,
      List.cons_append, label] at heq
    obtain ⟨hkind, htext, hbelow⟩ := h.root.carries.cancel h'.root.carries heq
    obtain ⟨hchildren, hrest⟩ := separable_all ih (fun c hc => h.child hc) (fun c hc => h'.child hc)
      hrest hrest' hbelow
    refine ⟨?_, hrest⟩
    have harity : t.arity = t'.arity := h.root.arity.trans h'.root.arity.symm
    cases t
    cases t'
    simp_all

/-- **The printed tree determines the tree.** -/
theorem outline_injective (h : t.Every Printable) (h' : t'.Every Printable)
    (heq : t.outline = t'.outline) : t = t' := by
  have hshallow : Shallow 1 [] := by
    intro hdots
    cases List.prefix_nil.mp hdots
  refine (separable t 0 t' [] [] h h' hshallow hshallow ?_).1
  rw [outline, outline] at heq
  rw [heq]

/-- A string that holds what looks like another two nodes. -/
theorem outline_injective_lines :
    let raw := "\\'\n.<nil>\n"
    let t := branch .tau [leaf .string raw, leaf .identifier "x"]
    let t' : Tree := ⟨.tau, none, [⟨.string, some raw, [], 0⟩, ⟨.identifier, some "x", [], 0⟩], 0⟩
    t.Every Printable ∧ t'.Every Printable ∧ t.outline = "tau\n.<STR:'\\'\n.<nil>\n'>\n.<ID:x>\n" ∧
      t.outline = t'.outline ∧ t = t' := by
  intro raw t t'
  have hraw : Token.Escaped raw.toList := by
    have hplain : Token.Escaped ['\n', '.', '<', 'n', 'i', 'l', '>', '\n'] :=
      Token.escaped_of_notMem (by decide) (by decide)
    rw [show raw.toList = '\\' :: '\'' :: ['\n', '.', '<', 'n', 'i', 'l', '>', '\n'] by decide]
    exact hplain.pair '\''
  have hx : Token.IsWord "x" := ⟨'x', [], rfl, by decide, List.forall_mem_nil _⟩
  have ht : t.Every Printable := every_branch_iff.mpr ⟨⟨.nothing (by decide), rfl⟩,
    List.forall_mem_cons.mpr ⟨every_leaf_iff.mpr ⟨.literal hraw, rfl⟩,
      List.forall_mem_singleton.mpr (every_leaf_iff.mpr ⟨.name hx, rfl⟩)⟩⟩
  have houtline : t.outline = t'.outline := by decide
  exact ⟨ht, ht, by decide, houtline, outline_injective ht ht houtline⟩

/-- A node without the text that its kind shows is printed as if it had the text `None`. -/
example : (branch .identifier []).outline = (leaf .identifier "None").outline := by decide

end Tree

end Rpal
