/-
# Scripts and their trees

The flags `-ast` and `-st` print trees and do nothing else:

    parsed and -ast             the raw tree in front of the rest
    standardized and -st        the standard form in front of the rest
    the rest                    what the script writes without the two flags

The exit code is the same for all settings of the flags, whichever phase fails.  For `-ast` this is
plain from the order of the phases.  With `-st` the tree that runs is the standard form, and it is
standardized a second time; so it rests on standard forms being their own standard forms
(`evaluate_of_standardize`), not merely on their being printed alike.

All this is up to the stack of the host.  Printing a tree and standardizing it recurse over its
levels, the standard form can have many more of them than the raw tree, and a script whose stack
runs out ends with a message and exit code 1.  So the flags only print if the stack suffices for
what they add (`FlagsFit`); otherwise the run that is short of stack ends early
(`runScript_flags`).  No stack is so large that it suffices for all scripts (`runScript_tower`).
-/
import Rpal.CommandLine
import Rpal.Proofs.Program.Towers
import Rpal.Proofs.Standard.Normal

namespace Rpal

/-! ## 1. Running a standard form -/

namespace Program

/-- A standard form is compiled to the same structure as the tree. -/
theorem compile_of_standardize {t s : Tree} (h : t.standardize = .ok s) :
    compile s = compile t := by
  simp only [compile, h, (Tree.isNormal_of_standardize h).standardize_eq]

/-- **A tree and its standard form run alike**: with the same output and the same answer. -/
theorem evaluate_of_standardize {t s : Tree} (h : t.standardize = .ok s) (budget : Nat) :
    evaluate budget s = evaluate budget t := by
  simp only [evaluate, compile_of_standardize h]

/-- A tree without a standard form is reported before anything runs. -/
theorem evaluate_of_standardize_error {t : Tree} {e : StandardizeError}
    (h : t.standardize = .error e) (budget : Nat) :
    evaluate budget t = some ⟨"", .error (.standardize e)⟩ := by
  simp only [evaluate, compile, h]

end Program

namespace Host

variable {host : Host} {t : Tree}

/-- On a host, a tree and its standard form run alike if the stack suffices for standardizing both,
or for neither: the other calls of their evaluations are the same. -/
theorem evaluate_of_standardize {standard : Tree} (h : t.standardize = .ok standard)
    (hfits : host.fits (.standardize standard) = host.fits (.standardize t)) (budget : Nat) :
    host.evaluate budget standard = host.evaluate budget t := by
  simp only [evaluate, Program.calls, h, (Tree.isNormal_of_standardize h).standardize_eq,
    List.all_cons, hfits, Program.evaluate_of_standardize h]

theorem evaluate_of_standardize_error {e : StandardizeError} (h : t.standardize = .error e)
    (hfits : host.fits (.standardize t) = true) (budget : Nat) :
    host.evaluate budget t = .done (some ⟨"", .error (.standardize e)⟩) := by
  simp only [evaluate, Program.calls, h, List.all_cons, List.all_nil, hfits, Bool.and_true, if_true,
    Program.evaluate_of_standardize_error h]

/-- A tree that cannot be standardized for want of stack is not run. -/
theorem evaluate_of_not_fits (h : host.fits (.standardize t) = false) (budget : Nat) :
    host.evaluate budget t = .tooDeep := by
  simp only [evaluate, Program.calls, List.all_cons, h, Bool.false_and, Bool.false_eq_true,
    if_false]

theorem fits_ofLevels_standardize (levels : Nat) (t : Tree) :
    (ofLevels levels).fits (.standardize t) = true ↔ t.height ≤ levels := by
  simp [fits, ofLevels]

theorem fits_ofLevels_outline (levels : Nat) (t : Tree) :
    (ofLevels levels).fits (.outline t) = true ↔ t.height ≤ levels := by
  simp [fits, ofLevels]

/-- A stack with room for a tree has room for its evaluation. -/
theorem evaluate_ofLevels {levels : Nat} (h : t.height ≤ levels) (budget : Nat) :
    (ofLevels levels).evaluate budget t = .done (Program.evaluate budget t) := by
  refine if_pos ?_
  rw [Program.calls, List.all_cons, (fits_ofLevels_standardize levels t).mpr h, Bool.true_and]
  cases t.standardize with
  | error e => rfl
  | ok standard => cases hcs : Control.structures standard <;> simp [hcs, fits, ofLevels]

end Host

namespace Transcript

theorem after_empty (t : Transcript) : t.after "" = t := by
  simp only [after, String.empty_append]

theorem after_after (text more : String) (t : Transcript) :
    (t.after more).after text = t.after (text ++ more) := by
  simp only [after, String.append_assoc]

end Transcript

namespace CommandLine

variable {host : Host} {budget : Nat} {s : Settings} {script : String} {t : Tree}

/-! ## 2. Running a tree -/

/-- A standard form and its tree are run alike. -/
theorem runTree_of_standardize (hdebug : s.debug = false) {standard : Tree}
    (h : t.standardize = .ok standard)
    (hfits : host.fits (.standardize standard) = host.fits (.standardize t)) :
    runTree host budget s script standard = runTree host budget s script t := by
  simp only [runTree, hdebug, Bool.false_eq_true, if_false, Host.evaluate_of_standardize h hfits]

/-- A tree without a standard form is reported. -/
theorem runTree_of_standardize_error (hdebug : s.debug = false) {e : StandardizeError}
    (h : t.standardize = .error e) (hfits : host.fits (.standardize t) = true) :
    runTree host budget s script t = problemTranscript script (.standardize e) := by
  simp only [runTree, hdebug, Bool.false_eq_true, if_false, Transcript.after_empty,
    Host.evaluate_of_standardize_error h hfits]

theorem runTree_of_not_fits (hdebug : s.debug = false)
    (h : host.fits (.standardize t) = false) :
    runTree host budget s script t = tooDeep script := by
  simp only [runTree, hdebug, Bool.false_eq_true, if_false, Transcript.after_empty,
    Host.evaluate_of_not_fits h]

/-! ## 3. What the flags print -/

/-- The printed standard form of a tree, if it has one. -/
def standardOutline (t : Tree) : String :=
  match t.standardize with
  | .ok standard => standard.outline
  | .error _ => ""

/-- The stack suffices for what the flag for the standard form adds to a run: for standardizing the
tree to show it, and for printing the standard form.  To run, the standard form is standardized
again, and for that the stack has to suffice exactly if it suffices for standardizing the tree. -/
def StandardFits (host : Host) (t : Tree) : Prop :=
  host.fits (.view t) = true ∧
    match t.standardize with
    | .ok standard => host.fits (.outline standard) = true ∧
        host.fits (.standardize standard) = host.fits (.standardize t)
    | .error _ => host.fits (.standardize t) = true

/-- The stack suffices for what the flags for the trees add to a run. -/
def FlagsFit (host : Host) (ast st : Bool) (t : Tree) : Prop :=
  (ast = true → host.fits (.outline t) = true) ∧ (st = true → StandardFits host t)

/-- A host without a limit has stack enough for the flags. -/
theorem flagsFit_unbounded (ast st : Bool) (t : Tree) : FlagsFit .unbounded ast st t := by
  refine ⟨fun _ => rfl, fun _ => ⟨rfl, ?_⟩⟩
  cases t.standardize with
  | ok standard => exact ⟨rfl, rfl⟩
  | error e => rfl

theorem printTree_of_fits (h : host.fits (.outline t) = true) (next : Transcript) :
    printTree host script t next = next.after t.outline := if_pos h

theorem printTree_of_not_fits (h : host.fits (.outline t) ≠ true) (next : Transcript) :
    printTree host script t next = tooDeep script := if_neg h

/-- Without debugging, the standard form is shown in front of its run. -/
theorem runStandard_eq_ite (hdebug : s.debug = false) (t : Tree) :
    runStandard host budget s script t =
      if host.fits (.view t) then
        match t.standardize with
        | .ok standard => printTree host script standard (runTree host budget s script standard)
        | .error e => problemTranscript script (.standardize e)
      else tooDeep script := by
  have hlog : (if s.debug then host.log budget [(Call.view t, fun _ => Program.standardizeLines t)]
      else "") = "" := if_neg (by rw [hdebug]; decide)
  show Transcript.after (if s.debug then _ else "") _ = _
  rw [hlog]
  exact Transcript.after_empty _

/-- **Running the standard form instead of the tree** only prints it first. -/
theorem runStandard_of_fits (hdebug : s.debug = false) (h : StandardFits host t) :
    runStandard host budget s script t =
      (runTree host budget s script t).after (standardOutline t) := by
  obtain ⟨hview, hrest⟩ := h
  rw [runStandard_eq_ite hdebug, if_pos hview, standardOutline]
  cases hs : t.standardize with
  | ok standard =>
    obtain ⟨houtline, hagain⟩ : host.fits (.outline standard) = true ∧ _ := by simpa [hs] using hrest
    rw [← runTree_of_standardize hdebug hs hagain]
    exact printTree_of_fits houtline _
  | error e =>
    have honce : host.fits (.standardize t) = true := by simpa [hs] using hrest
    rw [runTree_of_standardize_error hdebug hs honce]
    exact (Transcript.after_empty _).symm

/-- If the stack does not suffice, the script ends in front of the standard form or behind it; or
the stack does not suffice for the script without the flag either. -/
theorem runStandard_of_not_fits (hdebug : s.debug = false) (h : ¬ StandardFits host t) :
    runTree host budget s script t = tooDeep script ∨
      ∃ text ∈ ["", standardOutline t],
        runStandard host budget s script t = (tooDeep script).after text := by
  by_cases honce : host.fits (.standardize t) = true
  case neg => exact .inl (runTree_of_not_fits hdebug (Bool.eq_false_iff.mpr honce))
  refine .inr ?_
  rw [runStandard_eq_ite hdebug, standardOutline]
  by_cases hview : host.fits (.view t) = true
  case neg =>
    rw [if_neg hview]
    exact ⟨"", List.mem_cons_self, (Transcript.after_empty _).symm⟩
  rw [if_pos hview]
  cases hs : t.standardize with
  | error e => exact absurd ⟨hview, by simpa [hs] using honce⟩ h
  | ok standard =>
    by_cases houtline : host.fits (.outline standard) = true
    case neg =>
      exact ⟨"", List.mem_cons_self,
        (printTree_of_not_fits houtline _).trans (Transcript.after_empty _).symm⟩
    -- what is left is that the standard form cannot be standardized again
    have hagain : host.fits (.standardize standard) = false := by
      refine Bool.eq_false_iff.mpr fun hagain => h ⟨hview, ?_⟩
      simp [hs, houtline, hagain, honce]
    exact ⟨standard.outline, List.mem_cons_of_mem _ List.mem_cons_self,
      (printTree_of_fits houtline _).trans
        (congrArg _ (runTree_of_not_fits hdebug hagain))⟩

/-- The trees that the flags ask for are printed in front of the run. -/
theorem runRead_of_fits (hdebug : s.debug = false) (h : FlagsFit host s.ast s.st t) :
    runRead host budget s script t = (runTree host budget s script t).after
      ((if s.ast then t.outline else "") ++ if s.st then standardOutline t else "") := by
  obtain ⟨hast, hst⟩ := h
  have hrest : (if s.st then runStandard host budget s script t
      else runTree host budget s script t) =
        (runTree host budget s script t).after (if s.st then standardOutline t else "") := by
    cases hs : s.st with
    | true => exact runStandard_of_fits hdebug (hst hs)
    | false => exact (Transcript.after_empty _).symm
  rw [runRead, hrest]
  cases ha : s.ast with
  | true => exact (printTree_of_fits (hast ha) _).trans (Transcript.after_after _ _ _)
  | false =>
    simp only [Bool.false_eq_true, if_false, String.empty_append]

/-- If the stack does not suffice, the script ends in front of the trees, between them or behind
them; or the stack does not suffice for the script without the flags either. -/
theorem runRead_of_not_fits (hdebug : s.debug = false) (h : ¬ FlagsFit host s.ast s.st t) :
    let raw := if s.ast then t.outline else ""
    let standard := if s.st then standardOutline t else ""
    runTree host budget s script t = tooDeep script ∨
      ∃ text ∈ ["", raw, raw ++ standard],
        runRead host budget s script t = (tooDeep script).after text := by
  intro raw standard
  by_cases hast : s.ast = true → host.fits (.outline t) = true
  case neg =>
    obtain ⟨ha, houtline⟩ := Classical.not_imp.mp hast
    refine .inr ⟨"", List.mem_cons_self, ?_⟩
    rw [runRead, if_pos ha, printTree_of_not_fits houtline, Transcript.after_empty]
  obtain ⟨hst, hstandard⟩ : s.st = true ∧ ¬ StandardFits host t :=
    Classical.not_imp.mp fun hst => h ⟨hast, hst⟩
  -- the raw tree is in front of whatever comes of the standard form
  have hread : runRead host budget s script t =
      (runStandard host budget s script t).after raw := by
    rw [runRead, if_pos hst]
    cases ha : s.ast with
    | true =>
      rw [if_pos rfl, printTree_of_fits (hast ha)]
      simp only [raw, ha, if_true]
    | false =>
      simp only [raw, ha, Bool.false_eq_true, if_false, Transcript.after_empty]
  rcases runStandard_of_not_fits hdebug hstandard with hplain | ⟨text, htext, hend⟩
  · exact .inl hplain
  · refine .inr ⟨raw ++ text, ?_, by rw [hread, hend, Transcript.after_after]⟩
    simp only [List.mem_cons, List.not_mem_nil, or_false] at htext ⊢
    rcases htext with rfl | rfl
    · exact .inr (.inl String.append_empty)
    · exact .inr (.inr (by simp only [standard, hst, if_true]))

/-! ## 4. The flags for the trees -/

/-- A script that is read, without debugging: its trees, then its run. -/
theorem runScript_of_parse (hdebug : s.debug = false) {bytes : List UInt8}
    (h : host.parseBytes script bytes = .done (.ok t)) :
    runScript host budget s script bytes = runRead host budget s script t := by
  simp only [runScript, h, hdebug, Bool.false_eq_true, if_false, Transcript.after_empty]

/-- A script that is not read ends in the same way, whatever the settings. -/
theorem runScript_of_not_parse {bytes : List UInt8}
    (h : ∀ t, host.parseBytes script bytes ≠ .done (.ok t)) (s s' : Settings) :
    runScript host budget s script bytes = runScript host budget s' script bytes := by
  unfold runScript
  cases hread : host.parseBytes script bytes with
  | tooDeep => rfl
  | done read =>
    cases read with
    | error e => rfl
    | ok t => exact absurd hread (h t)

/-- **The flags for the trees only print.**  Let `plain` be what a script writes, and how it ends,
without them.  A script that is not read does the same with them.  If the stack suffices for what
the flags add, one that is read ends as `plain` does, and writes the raw tree if `-ast` asks for it,
the standard form if `-st` asks for it and there is one, and then what `plain` writes.  If it does
not suffice, the script runs out of stack without the flags, or with them, in front of the trees,
between them or behind them. -/
theorem runScript_flags (host : Host) (budget : Nat) (s : Settings) (ast st : Bool)
    (script : String) (bytes : List UInt8) :
    let plain :=
      runScript host budget { s with ast := false, st := false, debug := false } script bytes
    let shown := runScript host budget { s with ast, st, debug := false } script bytes
    ((∀ t, host.parseBytes script bytes ≠ .done (.ok t)) → shown = plain) ∧
    ∀ t, host.parseBytes script bytes = .done (.ok t) →
      let raw := if ast then t.outline else ""
      let standard :=
        if st then
          match t.standardize with
          | .ok standard => standard.outline
          | .error _ => ""
        else ""
      (FlagsFit host ast st t →
        shown.stderr = plain.stderr ∧ shown.ending = plain.ending ∧
          shown.stdout = raw ++ standard ++ plain.stdout) ∧
      (¬ FlagsFit host ast st t →
        plain = tooDeep script ∨
          ∃ text ∈ ["", raw, raw ++ standard], shown = (tooDeep script).after text) := by
  intro plain shown
  refine ⟨fun h => runScript_of_not_parse h _ _, fun t h => ?_⟩
  intro raw standard
  -- the flags for the trees play no part in running a tree
  have hplain : plain = runTree host budget { s with ast, st, debug := false } script t :=
    runScript_of_parse rfl h
  have hshown : shown = runRead host budget { s with ast, st, debug := false } script t :=
    runScript_of_parse rfl h
  rw [hplain, hshown]
  constructor
  · intro hfits
    rw [runRead_of_fits rfl hfits]
    exact ⟨rfl, rfl, rfl⟩
  · intro hfits
    exact runRead_of_not_fits rfl hfits

theorem parseBytes_tower (levels k n : Nat) (script : String) :
    (Host.ofLevels levels).parseBytes script (Program.towerBytes k n) =
      .done (.ok (Program.tower k n)) := by
  rw [Host.parseBytes, Program.decode_towerBytes]
  exact congrArg Attempt.done (Program.parse_tower k n script)

/-- However large the stack, a script runs to its end on it and is too deep with `-st`: the raw tree
of the script has fewer levels than the stack has room for, and its standard form has more. -/
theorem runScript_tower {levels k n : Nat} (hraw : n + 2 ≤ levels) (hstandard : levels < k + n + 2)
    (script : String) :
    let bytes := Program.towerBytes k n
    runScript (.ofLevels levels) 1 {} script bytes = exits "\n" 0 ∧
      runScript (.ofLevels levels) 1 { st := true } script bytes = tooDeep script := by
  intro bytes
  have hread := parseBytes_tower levels k n script
  have hroom : (Program.tower k n).height ≤ levels := (Program.height_tower k n).trans_le hraw
  constructor
  · obtain ⟨v, hv⟩ := Program.evaluate_tower k n
    rw [runScript_of_parse rfl hread]
    change runTree _ _ _ _ _ = _
    rw [runTree, Host.evaluate_ofLevels hroom, hv]
    rfl
  · have hshort : ¬ (Host.ofLevels levels).fits (.outline (Program.standardTower k n)) = true := by
      rw [Host.fits_ofLevels_outline, Program.height_standardTower]
      omega
    rw [runScript_of_parse rfl hread]
    change runStandard _ _ _ _ _ = _
    have hview : (Host.ofLevels levels).fits (.view (Program.tower k n)) = true :=
      (Host.fits_ofLevels_standardize levels _).mpr hroom
    rw [runStandard_eq_ite rfl, if_pos hview, Program.standardize_tower]
    exact printTree_of_not_fits hshort _

/-- A script that fails while it runs prints both trees first, and one that is not read prints
none. -/
theorem runScript_flags_where :
    let bytes := "x 1 where x = 2".toUTF8.toList
    let unread := "1 where = 2".toUTF8.toList
    let plain := runScript .unbounded 20 {} "where.rpal" bytes
    (∃ t standard, Host.unbounded.parseBytes "where.rpal" bytes = .done (.ok t) ∧
      t.standardize = .ok standard ∧ FlagsFit .unbounded true true t ∧ plain.ending = .exit 1 ∧
      (runScript .unbounded 20 { ast := true, st := true } "where.rpal" bytes).ending = .exit 1 ∧
      (runScript .unbounded 20 { ast := true, st := true } "where.rpal" bytes).stdout =
        t.outline ++ standard.outline ++ plain.stdout) ∧
    (∀ t, Host.unbounded.parseBytes "where.rpal" unread ≠ .done (.ok t)) ∧
      runScript .unbounded 20 { ast := true, st := true } "where.rpal" unread =
        runScript .unbounded 20 {} "where.rpal" unread := by
  intro bytes unread plain
  have hread : ((Program.parseFile "where.rpal" (some bytes)).toOption.any
      (·.standardize.toBool)) = true := by decide +kernel
  have hunread : (Program.parseFile "where.rpal" (some unread)).toBool = false := by
    decide +kernel
  have hplain : plain.ending = .exit 1 := by decide +kernel
  have hhost : ∀ bytes, Host.unbounded.parseBytes "where.rpal" bytes =
      .done (Program.parseFile "where.rpal" (some bytes)) := by
    intro bytes
    rw [Host.parseBytes, Program.parseFile]
    cases Program.decode "where.rpal" bytes <;> rfl
  constructor
  · cases ht : Program.parseFile "where.rpal" (some bytes) with
    | error e => simp [ht, Except.toOption] at hread
    | ok t =>
      cases hs : t.standardize with
      | error e => simp [ht, hs, Except.toOption, Except.toBool] at hread
      | ok standard =>
        have hfits := flagsFit_unbounded true true t
        have hparse := (hhost bytes).trans (congrArg Attempt.done ht)
        obtain ⟨-, hending, hstdout⟩ :=
          ((runScript_flags .unbounded 20 {} true true "where.rpal" bytes).2 t hparse).1 hfits
        rw [hs] at hstdout
        exact ⟨t, standard, hparse, hs, hfits, hplain, hending.trans hplain, hstdout⟩
  · have hnone : ∀ t, Host.unbounded.parseBytes "where.rpal" unread ≠ .done (.ok t) := by
      intro t h
      rw [Attempt.done.inj ((hhost unread).symm.trans h)] at hunread
      cases hunread
    exact ⟨hnone, (runScript_flags .unbounded 20 {} true true "where.rpal" unread).1 hnone⟩

/-- With a stack for trees of 1000 levels, the function of 450 arguments over the sum of 701 ones
runs to its end without `-st` and not with it. -/
theorem not_runScript_flags : ¬ ∀ (host : Host) (budget : Nat) (s : Settings) (ast st : Bool)
    (script : String) (bytes : List UInt8),
    let plain :=
      runScript host budget { s with ast := false, st := false, debug := false } script bytes
    let shown := runScript host budget { s with ast, st, debug := false } script bytes
    ((∀ t, host.parseBytes script bytes ≠ .done (.ok t)) → shown = plain) ∧
    ∀ t, host.parseBytes script bytes = .done (.ok t) →
      let raw := if ast then t.outline else ""
      let standard :=
        if st then
          match t.standardize with
          | .ok standard => standard.outline
          | .error _ => ""
        else ""
      shown.stderr = plain.stderr ∧ shown.ending = plain.ending ∧
        shown.stdout = raw ++ standard ++ plain.stdout := by
  intro h
  obtain ⟨-, hending, -⟩ := (h (.ofLevels 1000) 1 {} false true "tower.rpal"
    (Program.towerBytes 449 700)).2 _ (parseBytes_tower 1000 449 700 "tower.rpal")
  have hraw : 700 + 2 ≤ 1000 := by decide
  have hstandard : 1000 < 449 + 700 + 2 := by decide
  obtain ⟨hplain, hshown⟩ := runScript_tower hraw hstandard "tower.rpal"
  have hcodes : (exits "\n" 0).ending = (tooDeep "tower.rpal").ending := by
    rw [← hplain, ← hshown]
    exact hending.symm
  cases hcodes

end CommandLine

end Rpal
