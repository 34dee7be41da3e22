/-
# Printing any text

Every text can be written as a string literal, and printing the literal writes the text:

    Print 'it\'s a \\'        writes    it's a \

The scanner and the printer read escape sequences each in its own way: to the scanner a backslash
takes any character with it, and the printer replaces four sequences only.  `escape` writes texts
that both read alike (`quotable_escape`, `interpretEscapes_escape`).
-/
import Rpal.Proofs.Grammar.Parsing
import Rpal.Proofs.Item.Printing
import Rpal.Proofs.Program.Outcomes

namespace Rpal

open Text

/-! ## 1. The literal -/

/-- An escaped text can stand in a string literal. -/
theorem Token.quotable_escape (cs : List Char) : Quotable (escape cs) := by
  induction cs with
  | nil => exact .nil
  | cons c cs ih =>
    rw [escape, List.flatMap_cons, ← escape]
    rcases escapeChar_cases c with ⟨d, hwritten, -, hd, -⟩ | ⟨hwritten, hbackslash, hquote, -⟩
    · rw [hwritten]
      exact .pair hd ih
    · rw [hwritten]
      exact .plain hquote hbackslash ih

theorem Text.tab_notMem_escape (cs : List Char) : '\t' ∉ escape cs := by
  intro htab
  obtain ⟨c, -, hc⟩ := List.mem_flatMap.mp htab
  rcases escapeChar_cases c with ⟨d, hwritten, -, -, hd⟩ | ⟨hwritten, -, -, -, hne⟩
  · simp only [hwritten, List.mem_cons, List.not_mem_nil, or_false] at hc
    rcases hc with hc | hc
    · exact absurd hc (by decide)
    · exact hd hc.symm
  · rw [hwritten, List.mem_singleton] at hc
    exact hne hc.symm

namespace Program

open Grammar Token

/-! ## 2. The program -/

/-- The inside of a string literal that stands for the text. -/
def literalOf (s : String) : String := String.ofList (escape s.toList)

/-- The program that prints a text. -/
def echoSource (s : String) : String := "Print '" ++ literalOf s ++ "'"

/-- Its tokens. -/
def echoTokens (s : String) : List Token := [.identifier "Print", .string (literalOf s)]

/-- Its tree. -/
def echoTree (s : String) : Tree :=
  .branch .gamma [.leaf .identifier "Print", .leaf .string (literalOf s)]

theorem written_echoTokens (s : String) : written (echoTokens s) = echoSource s := by
  apply String.toList_inj.mp
  simp [written, echoTokens, echoSource, spelling, List.intercalate]

theorem lexical_echoTokens (s : String) : ∀ t ∈ echoTokens s, t.Lexical := by
  refine List.forall_mem_cons.mpr ⟨?_, List.forall_mem_singleton.mpr ⟨?_, ?_⟩⟩
  · exact ⟨⟨'P', _, rfl, by decide, List.all_eq_true.mp (by decide)⟩, by decide⟩
  · rw [literalOf, String.toList_ofList]
    exact tab_notMem_escape _
  · rw [literalOf, String.toList_ofList]
    exact quotable_escape _

theorem derives_echo (s : String) : Derives .expression (echoTokens s) (echoTree s) := by
  have hprint : Derives .application [.identifier "Print"] (.leaf .identifier "Print") :=
    (derives_atom rfl).climb 1
  exact (hprint.apply (derives_atom rfl)).climb 13

theorem parse_echoSource (filename s : String) : parse filename (echoSource s) = .ok (echoTree s) := by
  rw [← written_echoTokens, parse_written_iff_derives (lexical_echoTokens s)]
  exact derives_echo s

/-- The machine gets the text, the name of the function and the application. -/
theorem structures_echoTree (s : String) : ∃ t cs, (echoTree s).standardize = .ok t ∧
    Control.structures t = .ok cs ∧ (Control.root cs).body =
      [.plain .gamma, .literal .identifier "Print", .string (literalOf s)] :=
  ⟨_, _, rfl, rfl, rfl⟩

theorem written_literalOf (s : String) : Builtin.written (.string (literalOf s)) = s := by
  have htext : (Item.string (literalOf s)).print = literalOf s := rfl
  rw [Builtin.written_eq, htext, replaced, literalOf, String.toList_ofList,
    interpretEscapes_escape, String.ofList_toList]

/-- **Every text can be written as a literal and printed back.**  The program that prints the
literal is read and runs to its end, with dummy as its value, and it writes the text. -/
theorem run_echo (s : String) :
    (∀ filename, ∃ t, parse filename (echoSource s) = .ok t) ∧
      ∃ budget, run budget (echoSource s) = some ⟨s, .ok .dummy⟩ := by
  obtain ⟨t, cs, hstandard, hcs, hroot⟩ := structures_echoTree s
  refine ⟨fun filename => ⟨_, parse_echoSource filename s⟩, 3, ?_⟩
  have hrun : (Machine.start (Control.root cs)).run 3 =
      some ⟨"" ++ Builtin.written (.string (literalOf s)), .ok .dummy⟩ := by
    rw [Machine.start, hroot]
    rfl
  rw [run_of_structures (parse_echoSource unnamed s) hstandard hcs, hrun, written_literalOf,
    String.empty_append]
  rfl

end Program

end Rpal
