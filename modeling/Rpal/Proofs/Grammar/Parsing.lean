/-
# What the parser accepts

The parser returns a tree exactly where the tokens of the text are derived from `E`, and it is the
tree that the derivation builds (`Tree.ofScan_eq_ok_iff`).  For tokens that are written out with a
blank between any two that is a statement about the tokens alone (`Program.parse_written`): a text
without a derivation is an error, and no text has two derivations.
-/
import Rpal.Program
import Rpal.Proofs.Grammar.Unambiguity
import Rpal.Proofs.Token.Spelling

namespace Rpal

open Grammar

/-! ## 1. Scanned texts -/

/-- **A text is parsed** exactly if it was scanned to its end and its tokens are derived. -/
theorem Tree.ofScan_eq_ok_iff (scan : Scan) (t : Tree) :
    ofScan scan = .ok t ↔
      scan.complete ∧ Derives .expression (scan.lexemes.map (·.token)) t := by
  unfold ofScan
  constructor
  · intro h
    split at h
    · cases h
    · rename_i hphrase
      split at h
      · rename_i hcomplete
        obtain rfl := Except.ok.inj h
        obtain ⟨used, hused, hderives⟩ := finds_phrase _ _ .expression _ _ _ hphrase
        rw [List.append_nil] at hused
        rw [hused]
        exact ⟨hcomplete, hderives⟩
      · cases h
    · cases h
  · rintro ⟨hcomplete, hderives⟩
    have hread := reads_phrase scan.stop (scan.lexemes.length + 1) .expression _ t hderives
      (by rw [List.length_map]; exact Nat.lt_succ_self _) scan.lexemes [] rfl
      (fun _ h => by cases h)
    rw [List.append_nil] at hread
    simp only [hread, hcomplete, if_true]

namespace Program

theorem parse_eq_ok_iff (filename source : String) (t : Tree) :
    parse filename source = .ok t ↔ Tree.ofText source.toList = .ok t := by
  unfold parse parseWith
  cases Tree.ofText source.toList <;> simp

/-- A source text without tabs is parsed exactly if it is scanned to its end and its tokens are
derived. -/
theorem parse_iff_derives {source : String} (h : '\t' ∉ source.toList) (filename : String)
    (t : Tree) : parse filename source = .ok t ↔ (Scan.ofText source.toList).complete ∧
      Derives .expression ((Scan.ofText source.toList).lexemes.map (·.token)) t := by
  rw [parse_eq_ok_iff, Tree.ofText, Text.expandTabs_eq_self h, Tree.ofScan_eq_ok_iff]

/-! ## 2. Tokens with blanks between them -/

theorem parse_written_iff_derives {ts : List Token} (h : ∀ t ∈ ts, t.Lexical) (filename : String)
    (t : Tree) : parse filename (Token.written ts) = .ok t ↔ Derives .expression ts t := by
  obtain ⟨htokens, hcomplete⟩ := Scan.finds_written h
  rw [parse_iff_derives (Token.tab_notMem_written h), htokens]
  exact and_iff_right hcomplete

/-- **The parser accepts exactly the grammar.**  On tokens written out with a blank between any
two it returns the trees of their derivations from `E`, and an error if there is none; and the
tokens have at most one derivation. -/
theorem parse_written (filename : String) (ts : List Token) (h : ∀ t ∈ ts, t.Lexical) :
    (∀ t, parse filename (Token.written ts) = .ok t ↔
      ∃ d : Derivation .expression, d.yield = ts ∧ d.tree = t) ∧
    ((∃ e, parse filename (Token.written ts) = .error e) ↔
      ¬ ∃ d : Derivation .expression, d.yield = ts) ∧
    ∀ d d' : Derivation .expression, d.yield = ts → d'.yield = ts → d = d' := by
  have hok := parse_written_iff_derives h filename
  refine ⟨hok, ⟨?_, fun hnone => ?_⟩, fun d d' hd hd' => d.eq_of_yield d' (hd.trans hd'.symm)⟩
  · rintro ⟨e, he⟩ ⟨d, hd⟩
    cases he.symm.trans ((hok d.tree).mpr ⟨d, hd, rfl⟩)
  · cases hparse : parse filename (Token.written ts) with
    | error e => exact ⟨e, rfl⟩
    | ok t =>
      obtain ⟨d, hd, -⟩ := (hok t).mp hparse
      exact absurd ⟨d, hd⟩ hnone

/-- `let x = 1 in 'a'` -/
theorem parse_written_let :
    let ts : List Token := [.keyword .letWord, .identifier "x", .symbol .equals, .integer "1",
      .keyword .inWord, .string "a"]
    (∀ t ∈ ts, t.Lexical) ∧ parse "<input>" (Token.written ts) =
      .ok (.branch .letIn [.branch .equal [.leaf .identifier "x", .leaf .integer "1"],
        .leaf .string "a"]) := by
  intro ts
  have hlexical : ∀ t ∈ ts, t.Lexical := by
    intro t ht
    simp only [ts, List.mem_cons, List.not_mem_nil, or_false] at ht
    rcases ht with rfl | rfl | rfl | rfl | rfl | rfl
    · trivial
    · exact ⟨⟨'x', [], rfl, by decide, List.forall_mem_nil _⟩, by decide⟩
    · trivial
    · exact ⟨by decide, List.all_eq_true.mp (by decide)⟩
    · trivial
    · exact ⟨by decide, .plain (by decide) (by decide) .nil⟩
  obtain ⟨one, hone, htree⟩ : Derives .expression [.integer "1"] (.leaf .integer "1") :=
    (derives_atom rfl).climb 14
  obtain ⟨a, ha, htree'⟩ : Derives .expression [.string "a"] (.leaf .string "a") :=
    (derives_atom rfl).climb 14
  refine ⟨hlexical, ((parse_written "<input>" ts hlexical).1 _).mpr
    ⟨.letIn (.unnested (.alone (.plain (.equal (.name "x") one)))) a, ?_, ?_⟩⟩
  · simp [Derivation.yield, hone, ha, ts]
  · simp [Derivation.tree, htree, htree']

end Program

end Rpal
