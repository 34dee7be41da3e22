/-
# Identifiers

Every identifier in the tree of a program is a letter with letters, digits and underscores behind it
(`identifiers_of_parse`).  It is no reserved word, unless that word stands directly behind a digit
in the source text:

    1in        gamma
               .<INT:1>
               .<ID:in>

The tokens know that of the text they are read from (`Scan.stands_of_scan`).  That text has its
tabs expanded, but a digit with a word behind it stood there before (`behindDigit_of_expandTabs`).
-/
import Rpal.Proofs.Grammar.Texts
import Rpal.Proofs.Text.Tabs

namespace Rpal

/-! ## 1. Words behind digits -/

namespace Token

/-- A word that ends in an expanded text ended there before, a tab being no part of a word. -/
theorem head?_of_expandTabsFrom {column : Nat} {cs : List Char}
    (h : ∀ c ∈ (Text.expandTabsFrom column cs).head?, ¬ isNameChar c) :
    ∀ c ∈ cs.head?, ¬ isNameChar c := by
  cases cs with
  | nil => exact nofun
  | cons d rest =>
    intro c hc
    obtain rfl := Option.some.inj hc
    by_cases htab : d = '\t'
    · rw [htab]
      decide
    · rw [Text.expandTabsFrom.eq_3 _ _ _ htab] at h
      exact h d rfl

/-- **A word behind a digit** stood there before the tabs of the text were expanded. -/
theorem behindDigit_of_expandTabs {w : Keyword} {cs : List Char}
    (h : BehindDigit w (Text.expandTabs cs)) : BehindDigit w cs := by
  obtain ⟨before, digit, rest, hcs, hdigit, word, rfl, hend⟩ := h
  have hblank : ∀ w : Keyword, ' ' ∉ w.spelling.toList := by
    intro w
    cases w <;> decide
  have hne : digit ≠ ' ' := by
    rintro rfl
    exact absurd hdigit (by decide)
  obtain ⟨front, rest, column, rfl, hrest⟩ := Text.expandTabsFrom_split hne hcs
  obtain ⟨rest, column, rfl, rfl⟩ := Text.expandTabsFrom_eq_append (hblank w) hrest
  exact ⟨front, digit, _, rfl, hdigit, rest, rfl, head?_of_expandTabsFrom hend⟩

end Token

/-! ## 2. Programs -/

/-- If the node is an identifier, it is a word, which is reserved only if it stands directly behind
a digit in the source text. -/
def Tree.NamesWord (source : List Char) (n : Tree) : Prop :=
  n.kind = .identifier → ∃ name, n.text = some name ∧ Token.IsWord name ∧
    ∀ w, Keyword.ofSpelling? name = some w → Token.BehindDigit w source

namespace Program

open Grammar

/-- **Identifiers are words**, and a reserved word is read as an identifier at most where it stands
directly behind a digit in the source text. -/
theorem identifiers_of_parse {filename source : String} {t : Tree}
    (h : parse filename source = .ok t) : t.Every (Tree.NamesWord source.toList) := by
  have hshaped : Tree.Shaped (fun kind text => kind = .identifier →
      Token.IsWord text ∧ ∀ w, Keyword.ofSpelling? text = some w →
        Token.BehindDigit w source.toList) .expression t := by
    refine shaped_of_tokens h fun hcomplete token htoken => ?_
    have hs := Scan.stands_of_scan hcomplete token htoken
    cases token with
    | identifier name =>
      exact fun _ => ⟨hs.1, fun w hw => Token.behindDigit_of_expandTabs (hs.2 w hw)⟩
    | integer => exact Kind.noConfusion
    | string => exact Kind.noConfusion
    | keyword => trivial
    | symbol => trivial
  refine hshaped.every (fun _ htext hk => ⟨_, rfl, htext hk⟩) fun kind ts hk hidentifier => ?_
  exact absurd (.inl hidentifier) hk

/-- The tree of `1in`. -/
def touching : Tree := .branch .gamma [.leaf .integer "1", .leaf .identifier "in"]

theorem parse_touching (filename : String) : parse filename "1in" = .ok touching := by
  have htokens : (Scan.ofText "1in".toList).lexemes.map (·.token) =
      [.integer "1", .identifier "in"] := by decide +kernel
  have happlication : Derives .application [.integer "1", .identifier "in"] touching :=
    Derives.apply ((derives_atom rfl).climb 1) (derives_atom rfl)
  rw [parse_iff_derives (by decide), htokens]
  exact ⟨by decide +kernel, happlication.climb 13⟩

theorem every_touching {P : Tree → Prop} (h : touching.Every P) : P (.leaf .identifier "in") := by
  rw [touching, Tree.every_branch_iff] at h
  exact Tree.every_leaf_iff.mp (h.2 _ (by simp))

theorem identifiers_of_parse_touching :
    parse unnamed "1in" = .ok touching ∧ Token.BehindDigit .inWord "1in".toList := by
  have hin := every_touching (identifiers_of_parse (parse_touching unnamed))
  obtain ⟨name, hname, -, hreserved⟩ := hin rfl
  obtain rfl := Option.some.inj hname
  exact ⟨parse_touching unnamed, hreserved .inWord (by decide)⟩

/-- Some identifiers are reserved words. -/
theorem not_identifiers_of_parse : ¬ ∀ filename source t, parse filename source = .ok t →
    t.Every fun n => n.kind = .identifier → ∃ name, n.text = some name ∧ Token.IsName name := by
  intro h
  have hin := every_touching (h unnamed "1in" touching (parse_touching unnamed))
  obtain ⟨name, hname, -, hfree⟩ := hin rfl
  obtain rfl := Option.some.inj hname
  exact absurd hfree (by decide)

end Program

end Rpal
