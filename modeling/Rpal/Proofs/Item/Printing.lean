/-
# What `Print` writes

Printing reads the escape sequences of the whole printed form of a value, the brackets and commas of
tuples included.  None of them is ever taken into an escape sequence: neither `(` nor a blank ends
in a backslash, and neither `,` nor `)` can be escaped.  So a tuple is written part by part
(`written_tuple`), and one that is nested is written that way all the way down: the tuple of the
text `a\` and the tuple of 1 and `\'b` is written as `(a\, (1, 'b))`.

Two strings are written one after the other by `Conc`, unless an escape sequence arises where they
meet (`prints_composed`).
-/
import Mathlib.Data.List.Forall2
import Rpal.Machine
import Rpal.Proofs.Text.Escaping

namespace Rpal

open Text

/-! ## 1. Texts with their escape sequences replaced -/

/-- The text that is written for a printed form. -/
def Text.replaced (s : String) : String := String.ofList (interpretEscapes s.toList)

theorem Text.replaced_append {s t : String} (h : Separate s.toList t.toList) :
    replaced (s ++ t) = replaced s ++ replaced t := by
  rw [replaced, String.toList_append, interpretEscapes_append h, String.ofList_append]
  rfl

/-- A text is cut in front of a character that cannot be escaped. -/
theorem Text.separate_of_head {s t : String} {c : Char} (hc : t.toList.head? = some c)
    (h : c ∉ ['n', 't', '\\', '\'']) : Separate s.toList t.toList := by
  refine .inr fun d hd => ?_
  rw [hc] at hd
  exact Option.some.inj hd ▸ h

/-! ## 2. Tuples -/

namespace Builtin

theorem written_eq (i : Item) : written i = replaced i.print := rfl

/-- What stands behind a component cannot be escaped. -/
theorem separate_rest (s : String) (is : List Item) :
    Separate s.toList (Item.printRest is ++ ")").toList := by
  cases is with
  | nil => exact separate_of_head (c := ')') rfl (by decide)
  | cons i is => exact separate_of_head (c := ',') (by simp [Item.printRest]) (by decide)

/-- The components are written one by one, up to the bracket behind the last. -/
theorem replaced_components (i : Item) (is : List Item) :
    replaced (i.print ++ (Item.printRest is ++ ")")) =
      ", ".intercalate ((i :: is).map written) ++ ")" := by
  induction is generalizing i with
  | nil =>
    rw [replaced_append (separate_rest i.print [])]
    rfl
  | cons j is ih =>
    have hcomma : replaced (", " ++ (j.print ++ (Item.printRest is ++ ")"))) =
        ", " ++ replaced (j.print ++ (Item.printRest is ++ ")")) :=
      replaced_append (.inl (by decide))
    rw [replaced_append (separate_rest i.print (j :: is)), Item.printRest]
    simp only [String.append_assoc]
    rw [hcomma, ih]
    simp only [List.map_cons, String.intercalate_cons_cons, String.append_assoc]
    rfl

/-- **A tuple is written part by part**, between brackets. -/
theorem written_tuple (components : List Item) : written (.tuple components) =
    if components = [] then "nil" else "(" ++ ", ".intercalate (components.map written) ++ ")" := by
  cases components with
  | nil => rfl
  | cons i is =>
    have hopening : replaced ("(" ++ (i.print ++ (Item.printRest is ++ ")"))) =
        "(" ++ replaced (i.print ++ (Item.printRest is ++ ")")) :=
      replaced_append (.inl (by decide))
    rw [written_eq, Item.print_tuple_cons, String.append_assoc, String.append_assoc, hopening,
      replaced_components, if_neg (List.cons_ne_nil _ _), String.append_assoc]

end Builtin

/-! ## 3. Applications -/

namespace Machine

/-- Applied to the value, `Print` writes the text, whatever the state, and yields dummy. -/
def Prints (v : Item) (text : String) : Prop :=
  ∀ m : Machine, applyTo (.literal .identifier "Print") v m =
    .ok (push .dummy { m with output := m.output ++ text })

/-- Applied to the first value, `Conc` yields a function that yields the third when it is applied to
the second. -/
def Concatenates (x y v : Item) : Prop :=
  ∃ f, ∀ m : Machine, applyTo (.literal .identifier "Conc") x m = .ok (m.push f) ∧
    applyTo f y m = .ok (m.push v)

theorem prints_written (v : Item) : Prints v (Builtin.written v) := fun _ => rfl

/-- `Print` writes one text only. -/
theorem Prints.unique {v : Item} {s t : String} (hs : Prints v s) (ht : Prints v t) : s = t := by
  have hnext := (hs (start default)).symm.trans (ht (start default))
  exact (String.append_right_inj "").mp (congrArg output (Except.ok.inj hnext))

theorem concatenates_strings (a b : String) :
    Concatenates (.string a) (.string b) (.string (a ++ b)) := by
  refine ⟨.node .identifier (some "Conc") [.string a] 0, fun m => ⟨rfl, ?_⟩⟩
  have hboth : applyTo (.node .identifier (some "Conc") [.string a] 0) (.string b) m =
      .ok (push (.string (a ++ b)) { m with output := m.output ++ "" }) := rfl
  rw [hboth, String.append_empty]

/-- **Printing is compositional.**  A tuple is written as its components are, in order, with commas
between them and brackets around them, and the empty tuple as `nil`; and two strings one after the
other are written as they are one by one, unless the first ends in an odd number of backslashes and
the second begins with a character that can be escaped. -/
theorem prints_composed :
    (∀ components : List Item, ∃ texts, List.Forall₂ Prints components texts ∧
      Prints (.tuple components)
        (if texts = [] then "nil" else "(" ++ ", ".intercalate texts ++ ")")) ∧
    ∀ a b : String, (Even (trailingBackslashes a.toList) ∨
        ∀ c ∈ b.toList.head?, c ∉ ['n', 't', '\\', '\'']) →
      ∃ s t v, Prints (.string a) s ∧ Prints (.string b) t ∧
        Concatenates (.string a) (.string b) v ∧ Prints v (s ++ t) := by
  refine ⟨fun components => ⟨components.map Builtin.written, ?_, ?_⟩, fun a b h => ?_⟩
  · exact List.forall₂_map_right_iff.mpr (List.forall₂_same.mpr fun v _ => prints_written v)
  · have htuple := prints_written (.tuple components)
    rw [Builtin.written_tuple] at htuple
    simpa only [List.map_eq_nil_iff] using htuple
  · refine ⟨_, _, _, prints_written _, prints_written _, concatenates_strings a b, ?_⟩
    have happend : Builtin.written (.string (a ++ b)) =
        Builtin.written (.string a) ++ Builtin.written (.string b) := replaced_append h
    exact happend ▸ prints_written _

/-- A backslash in front of `a` escapes nothing. -/
theorem prints_composed_backslash :
    (∀ c ∈ "a".toList.head?, c ∉ ['n', 't', '\\', '\'']) ∧
      ∃ v, Concatenates (.string "\\") (.string "a") v ∧ Prints v "\\a" := by
  have ha : ∀ c ∈ "a".toList.head?, c ∉ ['n', 't', '\\', '\''] := by
    intro c hc
    obtain rfl : 'a' = c := Option.some.inj hc
    decide
  obtain ⟨s, t, v, hs, ht, hv, hprints⟩ := prints_composed.2 "\\" "a" (.inr ha)
  obtain rfl : s = "\\" := hs.unique (prints_written _)
  obtain rfl : t = "a" := ht.unique (prints_written _)
  exact ⟨ha, v, hv, hprints⟩

end Machine

end Rpal
