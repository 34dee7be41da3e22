/-
# Strings

The strings in the tree of a program are the literals of its source text, in order
(`Program.strings_of_parse`).  Every production puts the strings of its parts in the order of its
tokens (`Derivation.strings_tree`), and the tokens have those of the text (`Scan.strings_of_scan`).

That text has its tabs expanded, also those within a literal.  So a string is the literal with
its tabs expanded from the column where it stood:

    'a	b'        .<STR:'a      b'>
-/
import Rpal.Proofs.Grammar.Parsing
import Rpal.Proofs.Token.Literals
import Rpal.Proofs.Tree.Nodes

namespace Rpal

/-! ## 1. Trees and tokens -/

namespace Tree

/-- The texts of the strings in a tree, in pre-order. -/
def strings (t : Tree) : List (Option String) := (t.find .string).map (·.text)

/-- A node that is no string has the strings of its children. -/
@[simp]
theorem strings_branch {kind : Kind} (h : kind ≠ .string) (ts : List Tree) :
    (branch kind ts).strings = ts.flatMap strings := by
  rw [strings, branch, find, if_neg h, List.nil_append, findAll_eq_flatMap, List.map_flatMap]
  rfl

@[simp]
theorem strings_identifier (x : String) : (leaf .identifier x).strings = [] := rfl

/-- The names on the left of a definition are no strings. -/
theorem strings_names (xs : List String) :
    (xs.map (leaf .identifier)).flatMap strings = [] := by
  rw [List.flatMap_map]
  exact List.flatMap_eq_nil_iff.mpr fun x _ => strings_identifier x

end Tree

namespace Token

/-- The insides of the strings among tokens. -/
def strings (ts : List Token) : List (Option String) := (ts.filterMap string?).map some

/-- The strings of one list of tokens come behind those of the other. -/
@[simp]
theorem strings_append (ts us : List Token) : strings (ts ++ us) = strings ts ++ strings us := by
  rw [strings, List.filterMap_append, List.map_append]
  rfl

@[simp]
theorem strings_nil : strings [] = [] := rfl

/-- A token that is no string adds none. -/
theorem strings_cons {t : Token} (h : t.string? = none) (ts : List Token) :
    strings (t :: ts) = strings ts := by
  rw [strings, List.filterMap_cons, h]
  rfl

@[simp]
theorem strings_keyword (w : Keyword) (ts : List Token) :
    strings (.keyword w :: ts) = strings ts := strings_cons rfl ts

@[simp]
theorem strings_symbol (s : Symbol) (ts : List Token) :
    strings (.symbol s :: ts) = strings ts := strings_cons rfl ts

@[simp]
theorem strings_identifier (x : String) (ts : List Token) :
    strings (.identifier x :: ts) = strings ts := strings_cons rfl ts

end Token

/-! ## 2. Productions -/

namespace Grammar

open Rpal.Tree

/-- Names with commas between them have no strings. -/
@[simp]
theorem strings_commaNames (xs : List String) : Token.strings (commaNames xs) = [] := by
  induction xs with
  | nil => rfl
  | cons x xs ih => exact ih

/-- No operator is a string, neither as a token nor as a node. -/
theorem Chain.no_string {c : Chain} {op : Token} {kind : Kind} (h : c.operator? op = some kind) :
    kind ≠ .string ∧ op.string? = none := by
  unfold Chain.operator? at h
  split at h <;> cases h <;> exact ⟨by decide, rfl⟩

/-- No comparison is a string. -/
theorem no_string_of_comparison? {op : Token} {kind : Kind} (h : comparison? op = some kind) :
    kind ≠ .string ∧ op.string? = none := by
  unfold comparison? at h
  split at h <;> cases h <;> exact ⟨by decide, rfl⟩

/-- An operand of one token is a string if the token is one. -/
theorem strings_atom {token : Token} {leaf : Tree} (h : atom? token = some leaf) :
    leaf.strings = Token.strings [token] := by
  unfold atom? at h
  split at h <;> cases h <;> rfl

/-- A node over two phrases with a token between them, which is no string. -/
theorem strings_pair {kind : Kind} {op : Token} (h : kind ≠ .string ∧ op.string? = none)
    {left right : Tree} {ts us : List Token} (hleft : left.strings = Token.strings ts)
    (hright : right.strings = Token.strings us) :
    (branch kind [left, right]).strings = Token.strings (ts ++ op :: us) := by
  rw [strings_branch h.1, Token.strings_append, Token.strings_cons h.2, ← hleft, ← hright]
  simp

mutual

/-- **The strings of a derived tree** are those among the tokens, in the same order. -/
theorem Derivation.strings_tree : {n : Nonterminal} → (d : Derivation n) →
    d.tree.strings = Token.strings d.yield
  | _, .letIn d body => by
    simp [Derivation.tree, Derivation.yield, strings_tree d, strings_tree body]
  | _, .function params body => by
    simp [Derivation.tree, Derivation.yield, strings_trees Token.strings_nil params,
      strings_tree body]
  | _, .unscoped t => strings_tree t
  | _, .whereDef t d => strings_pair ⟨by decide, rfl⟩ (strings_tree t) (strings_tree d)
  | _, .unqualified t => strings_tree t
  | _, .tau first rest => by
    simp [Derivation.tree, Derivation.yield, strings_tree first,
      strings_trees (Token.strings_symbol .comma []) rest]
  | _, .untupled t => strings_tree t
  | _, .link _ _ _ h left right =>
    strings_pair (Chain.no_string h) (strings_tree left) (strings_tree right)
  | _, .start _ t => strings_tree t
  | _, .positive t => strings_tree t
  | _, .negative t => by simp [Derivation.tree, Derivation.yield, strings_tree t]
  | _, .choice condition thenPart elsePart => by
    simp [Derivation.tree, Derivation.yield, strings_tree condition, strings_tree thenPart,
      strings_tree elsePart]
  | _, .unconditional t => strings_tree t
  | _, .not t => by simp [Derivation.tree, Derivation.yield, strings_tree t]
  | _, .unnegated t => strings_tree t
  | _, .compare _ _ h left right =>
    strings_pair (no_string_of_comparison? h) (strings_tree left) (strings_tree right)
  | _, .uncompared t => strings_tree t
  | _, .raise base exponent =>
    strings_pair ⟨by decide, rfl⟩ (strings_tree base) (strings_tree exponent)
  | _, .unraised t => strings_tree t
  | _, .call left f right => by
    simp [Derivation.tree, Derivation.yield, strings_tree left, strings_tree right]
  | _, .uncalled t => strings_tree t
  | _, .apply f argument => by
    simp [Derivation.tree, Derivation.yield, strings_tree f, strings_tree argument]
  | _, .unapplied t => strings_tree t
  | _, .atom _ _ h => strings_atom h
  | _, .bracket t => by simp [Derivation.tree, Derivation.yield, strings_tree t]
  | _, .within first second =>
    strings_pair ⟨by decide, rfl⟩ (strings_tree first) (strings_tree second)
  | _, .unnested d => strings_tree d
  | _, .and first rest => by
    simp [Derivation.tree, Derivation.yield, strings_tree first,
      strings_trees (Token.strings_keyword .and []) rest]
  | _, .alone d => strings_tree d
  | _, .recursive d => by simp [Derivation.tree, Derivation.yield, strings_tree d]
  | _, .plain d => strings_tree d
  | _, .functionForm f params body => by
    simp [Derivation.tree, Derivation.yield, strings_trees Token.strings_nil params,
      strings_tree body]
  | _, .equal xs value =>
    strings_pair ⟨by decide, rfl⟩ (strings_tree xs) (strings_tree value)
  | _, .bracketed d => by simp [Derivation.tree, Derivation.yield, strings_tree d]
  | _, .parameter _ => rfl
  | _, .pattern xs => by simp [Derivation.tree, Derivation.yield, strings_tree xs]
  | _, .nothing => rfl
  | _, .names x y rest => by
    rw [Derivation.tree, Derivation.yield, strings_branch (by decide), strings_names,
      Token.strings_identifier, strings_commaNames]
  | _, .name _ => rfl

/-- Neighbours have the strings of their tokens, if the separator has none. -/
theorem Derivation.strings_trees {separator : List Token} (h : Token.strings separator = []) :
    {n : Nonterminal} → (ds : Derivations n) →
    ds.trees.flatMap Tree.strings = Token.strings (ds.yield separator)
  | _, .last d => by simp [Derivations.yield, Derivations.trees, h, strings_tree d]
  | _, .cons d ds => by
    simp [Derivations.yield, Derivations.trees, h, strings_tree d, strings_trees h ds]

end

end Grammar

namespace Program

open Text Grammar

/-! ## 3. Programs -/

/-- **The strings of a program** are the literals of its source text, in order, with their tabs
expanded from the columns where they stand; so they are those literals if these have no tabs. -/
theorem strings_of_parse {filename source : String} {t : Tree}
    (h : parse filename source = .ok t) :
    t.strings = (literals (expandTabs source.toList)).map (fun raw => some (String.ofList raw)) ∧
    List.Forall₂ Expanded (literals source.toList) (literals (expandTabs source.toList)) ∧
    ((∀ raw ∈ literals source.toList, '\t' ∉ raw) →
      t.strings = (literals source.toList).map fun raw => some (String.ofList raw)) := by
  have hstrings : t.strings =
      (literals (expandTabs source.toList)).map fun raw => some (String.ofList raw) := by
    rw [parse_eq_ok_iff, Tree.ofText, Tree.ofScan_eq_ok_iff] at h
    obtain ⟨hcomplete, d, hyield, rfl⟩ := h
    rw [d.strings_tree, hyield, Token.strings, Scan.strings_of_scan hcomplete, List.map_map]
    rfl
  refine ⟨hstrings, literals_expandTabs _, fun htab => ?_⟩
  rw [hstrings, eq_of_expanded (literals_expandTabs _) htab]

/-- Two strings with a comment between them. -/
def commented : String := "f 'a' // it's\n'b\\'c'"

/-- Its tree. -/
def commentedTree : Tree :=
  .branch .gamma [.branch .gamma [.leaf .identifier "f", .leaf .string "a"],
    .leaf .string "b\\'c"]

/-- The quote in the comment begins no string. -/
theorem parse_commented : parse unnamed commented = .ok commentedTree := by
  have htokens : (Scan.ofText commented.toList).lexemes.map (·.token) =
      [.identifier "f", .string "a", .string "b\\'c"] := by decide +kernel
  have hf : Derives .application [.identifier "f"] (.leaf .identifier "f") :=
    (derives_atom rfl).climb 1
  have happlication : Derives .application [.identifier "f", .string "a", .string "b\\'c"]
      commentedTree :=
    Derives.apply (Derives.apply hf (derives_atom rfl)) (derives_atom rfl)
  rw [parse_iff_derives (by decide), htokens]
  exact ⟨by decide +kernel, happlication.climb 13⟩

/-- The strings are those of the literals, with the escape left as it stands. -/
theorem strings_of_parse_commented : parse unnamed commented = .ok commentedTree ∧
    commentedTree.strings = [some "a", some "b\\'c"] ∧
    commentedTree.strings =
      (literals commented.toList).map fun raw => some (String.ofList raw) :=
  ⟨parse_commented, rfl, (strings_of_parse parse_commented).2.2 (by decide)⟩

/-- Some strings are not as they stand in the source text. -/
theorem not_strings_of_parse : ¬ ∀ filename source t, parse filename source = .ok t →
    t.strings = (literals source.toList).map fun raw => some (String.ofList raw) := by
  intro h
  have hparse : parse unnamed "'a\tb'" = .ok (.leaf .string "a      b") := by
    have htokens : (Scan.ofText (expandTabs "'a\tb'".toList)).lexemes.map (·.token) =
        [.string "a      b"] := by decide +kernel
    rw [parse_eq_ok_iff, Tree.ofText, Tree.ofScan_eq_ok_iff, htokens]
    exact ⟨by decide +kernel, (derives_atom rfl).climb 14⟩
  exact absurd (h _ _ _ hparse) (by decide)

end Program

end Rpal
