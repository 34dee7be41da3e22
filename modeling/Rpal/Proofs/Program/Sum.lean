/-
# The sum of the numbers up to a number

The program

    let rec sum n = n eq 0 -> 0 | n + sum (n - 1) in sum N

is followed from its source text to its result, for every number `N`: its tokens
(`finds_sumSource`), their derivation (`derives_sum`), its control structures
(`structures_sumTree`), the calls of `sum` one inside the other (`call_sumFunction`), and the run of
the machine (`run_sum`).  The result is `N (N + 1) / 2` as long as that number and `N` can be
written.
-/
import Rpal.Proofs.Evaluation.Recursion
import Rpal.Proofs.Evaluation.Refinement
import Rpal.Proofs.Grammar.Rendering
import Rpal.Proofs.Program.Outcomes

namespace Rpal

namespace Program

open Grammar Number Token

/-! ## 1. The program -/

/-- The program that computes the sum of the numbers up to a number. -/
def sumSource (digits : String) : String :=
  "let rec sum n = n eq 0 -> 0 | n + sum (n - 1) in sum " ++ digits

theorem toList_sumSource (digits : String) : (sumSource digits).toList =
    "let rec sum n = n eq 0 -> 0 | n + sum (n - 1) in sum ".toList ++ digits.toList :=
  String.toList_append

/-- The tokens of the body of the function. -/
def sumBodyTokens : List Token :=
  [.identifier "n", .keyword .eq, .integer "0", .symbol .arrow, .integer "0", .symbol .bar,
    .identifier "n", .symbol .plus, .identifier "sum", .symbol .lparen, .identifier "n",
    .symbol .minus, .integer "1", .symbol .rparen]

/-- The tokens of the program. -/
def sumTokens (digits : String) : List Token :=
  .keyword .letWord :: .keyword .recWord :: .identifier "sum" :: .identifier "n" ::
    .symbol .equals :: (sumBodyTokens ++ [.keyword .inWord, .identifier "sum", .integer digits])

/-- The body of the function, as it is parsed. -/
def sumBodyTree : Tree :=
  .branch .conditional [
    .branch .eq [.leaf .identifier "n", .leaf .integer "0"],
    .leaf .integer "0",
    .branch .plus [.leaf .identifier "n",
      .branch .gamma [.leaf .identifier "sum",
        .branch .minus [.leaf .identifier "n", .leaf .integer "1"]]]]

/-- The tree of the program. -/
def sumTree (digits : String) : Tree :=
  .branch .letIn [
    .branch .recDef [
      .branch .functionForm [.leaf .identifier "sum", .leaf .identifier "n", sumBodyTree]],
    .branch .gamma [.leaf .identifier "sum", .leaf .integer digits]]

/-- The body of the function in the core language. -/
def sumBody : Core :=
  .choice (.binary none .eq (.name "n") (.literal .integer "0"))
    (.literal .integer "0")
    (.binary none .plus (.name "n")
      (.apply none (.name "sum") (.binary none .minus (.name "n") (.literal .integer "1"))))

/-- The program in the core language. -/
def sumCore (digits : String) : Core :=
  .letRec 1 2 3 "sum" "n" sumBody (.apply none (.name "sum") (.literal .integer digits))

/-! ## 2. From the text to the code -/

section Reading

variable {digits : String}

theorem finds_sumSource (h : IsDigits digits) :
    Scan.Finds (Scan.ofText (sumSource digits).toList) (sumTokens digits) := by
  have hend : ∀ offset glued,
      Scan.Finds (Scan.fromOffset offset glued (' ' :: digits.toList)) [.integer digits] := by
    have hlexical : ∀ t ∈ [Token.integer digits], t.Lexical := List.forall_mem_singleton.mpr h
    have htext : behindBlanks [.integer digits] = ' ' :: digits.toList := List.append_nil _
    exact htext ▸ Scan.finds_behindBlanks hlexical
  rw [toList_sumSource]
  -- the words in front of the bracket, those in it, and those behind it
  refine Scan.finds_of_read 0 rfl ?_
  iterate 13 refine Scan.finds_behind_gap rfl rfl ?_
  refine Scan.finds_behind_gap rfl rfl ?_
  refine Scan.finds_beside rfl (fun glued => by cases glued <;> rfl) ?_
  iterate 2 refine Scan.finds_behind_gap rfl rfl ?_
  refine Scan.finds_beside rfl (fun glued => rfl) ?_
  iterate 2 refine Scan.finds_behind_gap rfl rfl ?_
  exact hend

theorem derives_sumBody : Derives .expression sumBodyTokens sumBodyTree := by
  have hname : ∀ x, Derives .operand [.identifier x] (.leaf .identifier x) :=
    fun x => derives_atom rfl
  have hinteger : ∀ digits, Derives .operand [.integer digits] (.leaf .integer digits) :=
    fun digits => derives_atom rfl
  have htest : Derives .comparison ([.identifier "n"] ++ .keyword .eq :: [.integer "0"])
      (.branch .eq [.leaf .identifier "n", .leaf .integer "0"]) :=
    Derives.compare rfl ((hname "n").climb 5) ((hinteger "0").climb 5)
  have hbelow : Derives .expression _
      (.branch .minus [.leaf .identifier "n", .leaf .integer "1"]) :=
    derives_operator (by decide) (hname "n") (hinteger "1")
  have hcall := Derives.apply ((hname "sum").climb 1) (derives_bracket hbelow)
  have hplus : Derives (.chain .sum) ([.identifier "n"] ++ .symbol .plus :: _)
      (.branch .plus [.leaf .identifier "n", _]) :=
    Derives.link rfl ((hname "n").climb 5) (hcall.climb 3)
  exact (Derives.choice (htest.climb 3) ((hinteger "0").climb 10) (hplus.climb 5)).climb 4

theorem derives_sum (digits : String) :
    Derives .expression (sumTokens digits) (sumTree digits) := by
  have hsum : Derives .application [.identifier "sum"] (.leaf .identifier "sum") :=
    (derives_atom rfl).climb 1
  have hdigits : Derives .operand [.integer digits] (.leaf .integer digits) := derives_atom rfl
  exact derives_letRec "sum" "n" derives_sumBody ((hsum.apply hdigits).climb 13)

theorem parse_sumSource (h : IsDigits digits) (filename : String) :
    parse filename (sumSource digits) = .ok (sumTree digits) := by
  obtain ⟨htokens, hcomplete⟩ := finds_sumSource h
  have htab : '\t' ∉ (sumSource digits).toList := by
    rw [toList_sumSource, List.mem_append, not_or]
    exact ⟨by decide, tab_notMem_spelling (show (Token.integer digits).Lexical from h)⟩
  rw [parse_iff_derives htab, htokens]
  exact ⟨hcomplete, derives_sum digits⟩

/-- The machine runs the code of the program in the core language. -/
theorem structures_sumTree (digits : String) : ∃ s cs, (sumTree digits).standardize = .ok s ∧
    Control.structures s = .ok cs ∧ (Control.root cs).body = (sumCore digits).code :=
  ⟨_, _, rfl, rfl, rfl⟩

end Reading

/-! ## 3. Calls and runs -/

/-- The sum of one more number. -/
theorem triangle_succ (k : Nat) : (k + 1) + k * (k + 1) / 2 = (k + 1) * (k + 1 + 1) / 2 := by
  have h : (k + 1) * (k + 1 + 1) = k * (k + 1) + 2 * (k + 1) :=
    (Nat.mul_comm _ _).trans (Nat.add_mul k 2 (k + 1))
  rw [h, Nat.add_mul_div_left _ _ (by decide), Nat.add_comm]

section Running

variable {n : Nat} (hn : Fits n) (hsum : Fits ↑(n * (n + 1) / 2))

/-- The function that the program defines. -/
def sumFunction : Value Core := .recursive (Core.recursor 2 3 "sum" "n" sumBody)

/-- The scope in which the body of the function is evaluated. -/
def sumScope (k : Nat) : Scope Core :=
  .binding "n" (.int k) (.frame (Core.recursiveScope 2 3 "sum" "n" sumBody))

theorem meaning_sumBody_zero (inner : Inner Core) :
    sumBody.meaning inner (sumScope 0) = pure (.int 0) := rfl

include hn hsum in
/-- The body at the next number, given what the call in it comes to. -/
theorem meaning_sumBody_succ (inner : Inner Core) {k : Nat} (hk : k < n)
    (hcall : inner.call sumFunction (.int k) = pure (.int ↑(k * (k + 1) / 2))) :
    sumBody.meaning inner (sumScope (k + 1)) = pure (.int ↑((k + 1) * (k + 1 + 1) / 2)) := by
  have htriangle : ∀ m ≤ n, Fits ↑(m * (m + 1) / 2) := fun m hm =>
    hsum.of_le (Nat.div_le_div_right (Nat.mul_le_mul hm (Nat.succ_le_succ hm)))
  have hnext : Fits ↑(k + 1) := hn.of_le hk
  have htest : Value.binary .eq (.int ↑(k + 1)) (.int 0) = .ok (.truth false : Value Core) := by
    have hzero : Fits 0 := hn.of_le (Nat.zero_le n)
    rw [Value.binary_eq_int hnext hzero, decide_eq_false (by omega)]
  have hbelow : Value.binary .minus (.int ↑(k + 1)) (.int 1) = .ok (.int k : Value Core) := by
    have hone : Fits 1 := hn.of_le (Nat.one_le_of_lt hk)
    have hint : (↑(k + 1) - 1 : Int) = k := by omega
    rw [Value.binary_minus_int hnext hone (hint ▸ hn.of_le (Nat.le_of_lt hk)), hint]
  have hplus : Value.binary .plus (.int ↑(k + 1)) (.int ↑(k * (k + 1) / 2)) =
      .ok (.int ↑((k + 1) * (k + 1 + 1) / 2) : Value Core) := by
    have hint : (↑(k + 1) + ↑(k * (k + 1) / 2) : Int) = ↑((k + 1) * (k + 1 + 1) / 2) :=
      congrArg Nat.cast (triangle_succ k)
    rw [Value.binary_plus_int hnext (htriangle k (Nat.le_of_lt hk))
      (hint ▸ htriangle (k + 1) hk), hint]
  have hvalue : (sumScope (k + 1)).value "n" = .ok (.int ↑(k + 1)) := rfl
  have hfunction : (sumScope (k + 1)).value "sum" = .ok sumFunction := rfl
  have hzero : (.literal .integer "0" : Value Core) = .int 0 := rfl
  have hone : (.literal .integer "1" : Value Core) = .int 1 := rfl
  -- the test fails, and the sum below is added to the number
  simp only [sumBody, Core.meaning, hvalue, hfunction, hzero, hone, Eval.lift_ok, pure_bind, htest,
    hbelow, hcall, hplus]
  rfl

include hn hsum in
/-- **The function computes the sum.** -/
theorem call_sumFunction (k : Nat) (hk : k ≤ n) :
    (Rpal.inner Core.meaning (2 * k + 2)).call sumFunction (.int k) =
      pure (.int ↑(k * (k + 1) / 2)) := by
  refine Core.call_recursive_induction 2 3 "sum" "n" sumBody (v := fun k => .int k)
    (w := fun k => .int ↑(k * (k + 1) / 2)) (fun inner => ?_) (fun inner k hk hcall => ?_) k hk
  · exact meaning_sumBody_zero inner
  · exact meaning_sumBody_succ hn hsum inner hk hcall

end Running

/-- **The program computes the sum.**  Unless `n` or the sum has too many digits, the run ends with
the sum as its value, and has written nothing. -/
theorem run_sum (n : Nat) (hn : (toString n).length ≤ digitLimit)
    (hsum : (toString (n * (n + 1) / 2)).length ≤ digitLimit) :
    ∃ budget, run budget (sumSource (toString n)) =
      some ⟨"", .ok (.literal .integer (toString (n * (n + 1) / 2)))⟩ := by
  rw [← fits_iff_length_toString] at hn hsum
  have hdigits : IsDigits (toString n) := by
    rw [IsDigits, Nat.toString_eq_ofList_toDigits, String.toList_ofList]
    exact ⟨Nat.toDigits_ne_nil, isDigit_of_mem_toDigits⟩
  obtain ⟨s, cs, hs, hcs, hroot⟩ := structures_sumTree (toString n)
  have hevaluate : (sumCore (toString n)).evaluate (2 * n + 2 + 1) =
      some (.ok (.int ↑(n * (n + 1) / 2)), "") := by
    have hcall := congrFun (call_sumFunction hn hsum n (Nat.le_refl n)) ""
    rw [sumCore, Core.evaluate_letRec]
    exact hcall
  obtain ⟨budget, hrun⟩ := Core.run_of_evaluate hroot hevaluate
  refine ⟨budget, ?_⟩
  rw [run_of_structures (parse_sumSource hdigits unnamed) hs hcs, hrun]
  rfl

theorem run_sum_three : (toString 3).length ≤ digitLimit ∧
    (toString (3 * (3 + 1) / 2)).length ≤ digitLimit ∧
    ∃ budget, run budget "let rec sum n = n eq 0 -> 0 | n + sum (n - 1) in sum 3" =
      some ⟨"", .ok (.literal .integer "6")⟩ :=
  ⟨by decide, by decide, run_sum 3 (by decide) (by decide)⟩

end Program

end Rpal
