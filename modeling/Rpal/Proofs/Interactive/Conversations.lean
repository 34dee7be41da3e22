/-
# Conversations

A session answers its lines one after the other, and the answer to a line is made from the line
alone.  So a session writes what its lines would write as sessions of their own, one behind the
other, and it says goodbye at the end of the input, whatever errors the lines report
(`session_of_lines`).

One thing ends a session early: a line that breaks down at a limit of numbers.  Then the lines
before it have been answered, and the lines behind it are not read any more.  A line that the stack
of the host does not suffice for is no such line: it is answered by a message.  What is said here
holds of every `Host`.

The budget bounds the steps of each line.  `∀ᶠ budget in atTop` says "with every budget that is
large enough"; a line that is answered at all has the same answer with all of these
(`exists_replies`).
-/
import Mathlib.Order.Filter.AtTopBot.Basic
import Rpal.Interactive
import Rpal.Proofs.Program.Outcomes

namespace Rpal

open Filter

/-! ## 1. Larger budgets -/

/-- A larger budget adds nothing to the log of a run that ends.  The log takes one step more than
the run, as it tells the end in a step of its own. -/
theorem Machine.log_mono {n : Nat} {m : Machine} {r : Result} (h : run n m = some r) (k : Nat) :
    log (n + k + 1) m = log (n + 1) m := by
  induction n generalizing m with
  | zero =>
    cases hc : m.control with
    | nil => rw [log, hc, log, hc]
    | cons i rest => simp [run, hc] at h
  | succ n ih =>
    rw [Nat.add_right_comm n 1 k]
    cases hc : m.control with
    | nil => rw [log, hc, log, hc]
    | cons i rest =>
      have hstep : m.step = execute i (m.take rest) := by rw [step, hc]
      cases hs : execute i (m.take rest) with
      | error f =>
        rw [log, hc, log, hc]
        simp only [hs]
      | ok next =>
        have hnext : run n next = some r := by simpa [run, hc, hstep, hs] using h
        rw [log, hc, log, hc]
        simp only [hs, ih hnext]

theorem Program.evaluateLog_mono {n : Nat} {t : Tree} {o : Outcome} (h : evaluate n t = some o)
    (k : Nat) : evaluateLog (n + k + 1) t = evaluateLog (n + 1) t := by
  unfold evaluate compile at h
  unfold evaluateLog
  cases hstandard : t.standardize with
  | error e => rfl
  | ok standard =>
    cases hcs : Control.structures standard with
    | error e => simp only [hcs]
    | ok cs =>
      simp only [hstandard, hcs, Except.map, Option.map_eq_some_iff] at h
      obtain ⟨r, hr, -⟩ := h
      simp only [hcs, Machine.log_mono hr]

namespace Host

variable {host : Host} {t : Tree}

/-- A text that is read on some host is read on all. -/
theorem parse_of_parse {filename source : String}
    (h : host.parse filename source = .done (.ok t)) : Program.parse filename source = .ok t := by
  unfold parse Program.parseWith at h
  unfold Program.parse Program.parseWith
  split at h
  · cases ht : Tree.ofText source.toList with
    | error place => simp [ht] at h
    | ok t' => simpa [ht] using h
  · cases h

/-- The log of calls that all come to their end is the whole log. -/
theorem log_of_fits {cs : List (Call × (Nat → List String))}
    (h : cs.all (host.fits ·.1) = true) (budget : Nat) :
    host.log budget cs = unbounded.log budget cs := by
  induction cs with
  | nil => rfl
  | cons c cs ih =>
    rw [List.all_cons, Bool.and_eq_true] at h
    have hc : host.exhausted? c.1 = none := Option.isNone_iff_eq_none.mp h.1
    have hunbounded : unbounded.exhausted? c.1 = none := rfl
    rw [log, log]
    simp only [hc, hunbounded, ih h.2]

theorem evaluateLog_of_fits (h : (Program.calls t).all (host.fits ·.1) = true) (budget : Nat) :
    host.evaluateLog budget t = Program.evaluateLog budget t :=
  (log_of_fits h budget).trans (evaluateLog_unbounded budget t)

/-- The log of an evaluation that runs out of stack is the same with every budget: only the run, the
last of its calls, depends on the budget, and of a run that is cut off the first lines are printed,
each by a step of its own. -/
theorem evaluateLog_of_not_fits (h : (Program.calls t).all (host.fits ·.1) ≠ true)
    (budget budget' : Nat) : host.evaluateLog budget t = host.evaluateLog budget' t := by
  unfold evaluateLog
  unfold Program.calls at h ⊢
  cases hview : host.exhausted? (.standardize t) with
  | some n => simp only [log, hview]
  | none =>
    cases hs : t.standardize with
    | error e => simp only [log, hview]
    | ok standard =>
      cases hbuild : host.exhausted? (.build standard) with
      | some n => simp only [log, hview, hbuild]
      | none =>
        cases hcs : Control.structures standard with
        | error e => simp only [log, hview, hbuild, hcs]
        | ok structures =>
          cases hrun : host.exhausted? (.run (Control.root structures)) with
          | some n => simp only [log, hview, hbuild, hcs, hrun]
          | none => simp [hs, hcs, fits, hview, hbuild, hrun] at h

end Host

namespace Interactive

variable {host : Host} {lineEditing debug : Bool} {n : Nat} {line answer text : String}
  {lines : List String} {ending : Ending} {b : Breakdown} {t : Tree}

/-! ## 2. Answers -/

/-- A line that asks for the end of the session. -/
def IsQuit (line : String) : Prop :=
  String.ofList (Text.trim line.toList) = ":quit" ∨ String.ofList (Text.trim line.toList) = ":q"

/-- The line is answered within some budget. -/
def Ends (host : Host) (debug : Bool) (line : String) : Prop :=
  ∃ budget, respond host budget debug line ≠ .unfinished

/-- The answer to a line, with every budget that is large enough. -/
def Replies (host : Host) (debug : Bool) (line : String) (a : Answer) : Prop :=
  ∀ᶠ budget in atTop, respond host budget debug line = a

theorem Replies.of_add {a : Answer} (h : ∀ k, respond host (n + k + 1) debug line = a) :
    Replies host debug line a := by
  filter_upwards [eventually_ge_atTop (n + 1)] with budget hbudget
  obtain ⟨k, rfl⟩ := Nat.exists_eq_add_of_le hbudget
  rw [Nat.add_right_comm]
  exact h k

/-- A program that is not read is answered by a text; one that is read is gone on with. -/
theorem read_cases (host : Host) (debug : Bool) (source : String) :
    (∃ answer, ∀ next, read host debug source next = .print answer) ∨
      ∃ t lead, Program.parse Program.unnamed source = .ok t ∧
        ∀ next, read host debug source next = (next t).after lead := by
  unfold read
  cases hparse : host.parse Program.unnamed source with
  | tooDeep => exact .inl ⟨_, fun _ => rfl⟩
  | done result =>
    cases result with
    | error e => exact .inl ⟨_, fun _ => rfl⟩
    | ok t => exact .inr ⟨t, _, Host.parse_of_parse hparse, fun _ => rfl⟩

/-- A tree that is shown is shown as a text, whether it was read or not. -/
theorem read_print (host : Host) (debug : Bool) (source : String) (view : Tree → String) :
    ∃ answer, read host debug source (fun t => .print (view t)) = .print answer := by
  rcases read_cases host debug source with ⟨answer, h⟩ | ⟨t, lead, -, h⟩
  · exact ⟨answer, h _⟩
  · exact ⟨lead ++ view t, h _⟩

/-- A line that does not end the session is answered without a run, or it is run as a program. -/
theorem respond_cases (host : Host) (debug : Bool) (hquit : ¬ IsQuit line) :
    (∃ answer, ∀ budget, respond host budget debug line = .print answer) ∨
      ∃ t lead, Program.parse Program.unnamed line = .ok t ∧ ∀ budget,
        respond host budget debug line = (evaluateTree host budget debug t).after lead := by
  obtain ⟨hquit, hq⟩ := not_or.mp hquit
  by_cases hempty : (String.ofList (Text.trim line.toList)).isEmpty = true
  · exact .inl ⟨"", fun budget => by simp [respond, hquit, hq, hempty]⟩
  by_cases hhelp : String.ofList (Text.trim line.toList) = ":help"
  · exact .inl ⟨help, fun budget => by simp [respond, hhelp]⟩
  cases hast : afterLead? ":ast " line with
  | some source =>
    obtain ⟨answer, hshown⟩ := read_print host debug source (treeView host)
    exact .inl ⟨answer, fun budget => by simp [respond, hquit, hq, hempty, hhelp, hast, hshown]⟩
  | none =>
    cases hst : afterLead? ":st " line with
    | some source =>
      obtain ⟨answer, hshown⟩ := read_print host debug source (standardView host debug)
      exact .inl ⟨answer, fun budget => by
        simp [respond, hquit, hq, hempty, hhelp, hast, hst, hshown]⟩
    | none =>
      have hrespond : ∀ budget, respond host budget debug line =
          read host debug line (evaluateTree host budget debug) :=
        fun budget => by simp [respond, hquit, hq, hempty, hhelp, hast, hst]
      simp only [hrespond]
      rcases read_cases host debug line with ⟨answer, h⟩ | ⟨t, lead, hparse, h⟩
      · exact .inl ⟨answer, fun budget => h _⟩
      · exact .inr ⟨t, lead, hparse, fun budget => h _⟩

theorem Answer.after_eq_unfinished_iff {lead : String} {a : Answer} :
    a.after lead = .unfinished ↔ a = .unfinished := by
  cases a <;> simp [Answer.after]

/-- The answer to a tree whose evaluation runs out of stack is the same with every budget. -/
theorem evaluateTree_of_not_fits (h : (Program.calls t).all (host.fits ·.1) ≠ true) (debug : Bool) :
    ∃ answer, ∀ budget, evaluateTree host budget debug t = .print answer := by
  refine ⟨(if debug then host.evaluateLog 0 t else "") ++ tooDeep, fun budget => ?_⟩
  have htooDeep : host.evaluate budget t = .tooDeep := if_neg h
  rw [evaluateTree, htooDeep, Host.evaluateLog_of_not_fits h budget 0]

/-- A tree that is answered gets the same answer with a larger budget. -/
theorem evaluateTree_mono (h : evaluateTree host n debug t ≠ .unfinished) (k : Nat) :
    evaluateTree host (n + k + 1) debug t = evaluateTree host (n + 1) debug t := by
  by_cases hfits : (Program.calls t).all (host.fits ·.1) = true
  case neg =>
    obtain ⟨answer, hanswer⟩ := evaluateTree_of_not_fits hfits debug
    rw [hanswer, hanswer]
  have hdone : ∀ budget, host.evaluate budget t = .done (Program.evaluate budget t) :=
    fun budget => if_pos hfits
  unfold evaluateTree at h ⊢
  simp only [hdone, Host.evaluateLog_of_fits hfits] at h ⊢
  cases ho : Program.evaluate n t with
  | none => simp [ho] at h
  | some o =>
    rw [Nat.add_assoc, Program.evaluate_mono ho, Program.evaluate_mono ho, ← Nat.add_assoc,
      Program.evaluateLog_mono ho]

/-- A tree that is answered is answered by a text, or its evaluation breaks down. -/
theorem evaluateTree_cases (h : evaluateTree host n debug t ≠ .unfinished) :
    (∃ answer, evaluateTree host (n + 1) debug t = .print answer) ∨
      ∃ answer b output, evaluateTree host (n + 1) debug t = .broken answer b ∧
        Program.evaluate n t = some ⟨output, .error (.failure (.breakdown b))⟩ := by
  by_cases hfits : (Program.calls t).all (host.fits ·.1) = true
  case neg =>
    obtain ⟨answer, hanswer⟩ := evaluateTree_of_not_fits hfits debug
    exact .inl ⟨answer, hanswer _⟩
  have hdone : ∀ budget, host.evaluate budget t = .done (Program.evaluate budget t) :=
    fun budget => if_pos hfits
  unfold evaluateTree at h ⊢
  simp only [hdone] at h ⊢
  cases ho : Program.evaluate n t with
  | none => simp [ho] at h
  | some o =>
    rw [Program.evaluate_mono ho 1]
    rcases o with ⟨output, (e | e | f | b) | v⟩
    · exact .inl ⟨_, rfl⟩
    · exact .inl ⟨_, rfl⟩
    · exact .inl ⟨_, rfl⟩
    · exact .inr ⟨_, b, output, rfl, rfl⟩
    · exact .inl ⟨_, rfl⟩

/-- A line that is answered within a budget has the same answer with every larger budget, from the
next one on. -/
theorem replies_of_ends (h : respond host n debug line ≠ .unfinished) :
    Replies host debug line (respond host (n + 1) debug line) := by
  by_cases hquit : IsQuit line
  · have hreply : ∀ budget, respond host budget debug line = .quit := by
      intro budget
      rcases hquit with hquit | hquit <;> simp [respond, hquit]
    rw [hreply (n + 1)]
    exact .of_forall hreply
  · rcases respond_cases host debug hquit with ⟨answer, hprint⟩ | ⟨t, lead, -, heval⟩
    · rw [hprint (n + 1)]
      exact .of_forall hprint
    · rw [heval, ne_eq, Answer.after_eq_unfinished_iff] at h
      refine .of_add (n := n) fun k => ?_
      rw [heval, heval, evaluateTree_mono h]

/-- **Every line that ends has an answer**: a text, or a breakdown at a limit of numbers. -/
theorem exists_replies (hquit : ¬ IsQuit line) (hends : Ends host debug line) :
    (∃ answer, Replies host debug line (.print answer)) ∨
      ∃ answer b output, Replies host debug line (.broken answer b) ∧
        Program.BreaksDown line output b := by
  obtain ⟨n, hn⟩ := hends
  have hreply := replies_of_ends hn
  rcases respond_cases host debug hquit with ⟨answer, hprint⟩ | ⟨t, lead, hparse, heval⟩
  · exact .inl ⟨answer, hprint (n + 1) ▸ hreply⟩
  · rw [heval, ne_eq, Answer.after_eq_unfinished_iff] at hn
    rw [heval] at hreply
    rcases evaluateTree_cases hn with ⟨answer, h⟩ | ⟨answer, b, output, h, ho⟩
    · exact .inl ⟨lead ++ answer, by rwa [h] at hreply⟩
    · have hrun : Program.run n line = some ⟨output, .error (.failure (.breakdown b))⟩ := by
        simp only [Program.run, hparse, ho]
      exact .inr ⟨lead ++ answer, b, output, by rwa [h] at hreply,
        Program.run_iff_breaksDown.mp ⟨n, hrun⟩⟩

/-- A line that is a program ends with it, on every host. -/
theorem respond_ne_unfinished {o : Outcome} (h : Program.run n line = some o) :
    respond host n debug line ≠ .unfinished := by
  by_cases hquit : IsQuit line
  · rcases hquit with hquit | hquit <;> simp [respond, hquit]
  rcases respond_cases host debug hquit with ⟨answer, hprint⟩ | ⟨t, lead, hparse, heval⟩
  · simp [hprint]
  have ho : Program.evaluate n t = some o := by simpa only [Program.run, hparse] using h
  rw [heval, ne_eq, Answer.after_eq_unfinished_iff, evaluateTree, Host.evaluate]
  by_cases hfits : (Program.calls t).all (host.fits ·.1) = true
  · rw [if_pos hfits, ho]
    rcases o with ⟨output, (e | e | f | b) | v⟩ <;> simp
  · rw [if_neg hfits]
    simp

/-! ## 3. Conversations -/

/-- What is written at the end of the input. -/
def closing : String := prompt ++ farewell

/-- With every budget that is large enough, the conversation over the lines writes the text and
ends so. -/
def Converses (host : Host) (debug : Bool) (lines : List String) (text : String)
    (ending : Ending) : Prop :=
  ∀ᶠ budget in atTop,
    converse host budget debug (lines.map Input.line) = { stdout := text, ending }

theorem Converses.nil : Converses host debug [] closing (.exit 0) := .of_forall fun _ => rfl

/-- A line that is answered by a text comes in front of what the other lines write. -/
theorem Converses.cons (h : Replies host debug line (.print answer))
    (hrest : Converses host debug lines text ending) :
    Converses host debug (line :: lines) (prompt ++ answer ++ text) ending := by
  filter_upwards [h, hrest] with budget hline hlines
  simp only [List.map_cons, converse, hline, hlines, Transcript.after]

/-- A line that breaks down is the last one. -/
theorem Converses.broken (h : Replies host debug line (.broken answer b)) (lines : List String) :
    Converses host debug (line :: lines) (prompt ++ answer) (.broken b) := by
  filter_upwards [h] with budget hline
  simp only [List.map_cons, converse, hline]

/-- A conversation over one line breaks down in the answer. -/
theorem broken_of_ending (h : (converse host n debug [.line line]).ending = .broken b) :
    ∃ answer, respond host n debug line = .broken answer b := by
  unfold converse at h
  cases hreply : respond host n debug line with
  | broken answer b' =>
    rw [hreply] at h
    obtain rfl : b' = b := Ending.broken.inj h
    exact ⟨answer, rfl⟩
  | _ =>
    rw [hreply] at h
    cases h

/-- The text that a line adds to a conversation: what it writes as the only line, in front of the
closing. -/
def Adds (host : Host) (debug : Bool) (line text : String) : Prop :=
  Converses host debug [line] (text ++ closing) (.exit 0)

/-- **A conversation is put together from its lines**, up to a line that breaks down. -/
theorem converses_cases (hquit : ∀ line ∈ lines, ¬ IsQuit line)
    (hends : ∀ line ∈ lines, Ends host debug line) :
    (∃ texts, List.Forall₂ (Adds host debug) lines texts ∧
        Converses host debug lines (String.join texts ++ closing) (.exit 0)) ∨
      ∃ before line after texts text b, lines = before ++ line :: after ∧
        List.Forall₂ (Adds host debug) before texts ∧ Converses host debug [line] text (.broken b) ∧
        Converses host debug lines (String.join texts ++ text) (.broken b) ∧
        ∃ output, Program.BreaksDown line output b := by
  induction lines with
  | nil => exact .inl ⟨[], .nil, .nil⟩
  | cons line lines ih =>
    rw [List.forall_mem_cons] at hquit hends
    rcases exists_replies hquit.1 hends.1 with ⟨answer, h⟩ | ⟨answer, b, output, h, hbreaks⟩
    · have hadds : Adds host debug line (prompt ++ answer) := .cons h .nil
      rcases ih hquit.2 hends.2 with ⟨texts, htexts, hlines⟩ |
        ⟨before, broken, after, texts, text, b, rfl, htexts, hbroken, hlines, hbreaks⟩
      · refine .inl ⟨(prompt ++ answer) :: texts, .cons hadds htexts, ?_⟩
        rw [String.join_cons, String.append_assoc]
        exact .cons h hlines
      · refine .inr ⟨line :: before, broken, after, (prompt ++ answer) :: texts, text, b, rfl,
          .cons hadds htexts, hbroken, ?_, hbreaks⟩
        rw [String.join_cons, String.append_assoc]
        exact .cons h hlines
    · exact .inr ⟨[], line, lines, [], prompt ++ answer, b, rfl, .nil, .broken h [],
        .broken h lines, output, hbreaks⟩

/-! ## 4. Sessions -/

/-- With every budget that is large enough, the session over the lines writes the text behind its
greeting and ends so. -/
def Writes (host : Host) (lineEditing debug : Bool) (lines : List String) (text : String)
    (ending : Ending) : Prop :=
  ∀ᶠ budget in atTop, session host budget lineEditing debug (lines.map Input.line) =
    { stdout := greeting lineEditing debug ++ text, ending }

theorem Converses.writes (h : Converses host debug lines text ending) (lineEditing : Bool) :
    Writes host lineEditing debug lines text ending := by
  filter_upwards [h] with budget hlines
  simp only [session, hlines, Transcript.after]

theorem Writes.ending_unique {text' : String} {ending' : Ending}
    (h : Writes host lineEditing debug lines text ending)
    (h' : Writes host lineEditing debug lines text' ending') : ending = ending' := by
  obtain ⟨budget, h, h'⟩ := (h.and h').exists
  exact congrArg Transcript.ending (h.symm.trans h')

/-- **The lines of a session are independent.**  If no line asks for the end and all lines end, then
the session writes what its lines write as sessions of their own, one behind the other, and it says
goodbye at the end of the input; unless a line breaks down, as a number in it exceeds a limit.  The
first such line is the last that is read.  This is so on every host: a line that runs out of stack
is answered like any other. -/
theorem session_of_lines (host : Host) (lineEditing : Bool) (hquit : ∀ line ∈ lines, ¬ IsQuit line)
    (hends : ∀ line ∈ lines, Ends host debug line) :
    (∃ texts, List.Forall₂ (fun line text =>
          Writes host lineEditing debug [line] (text ++ closing) (.exit 0)) lines texts ∧
        Writes host lineEditing debug lines (String.join texts ++ closing) (.exit 0)) ∨
      ∃ before line after texts text b, lines = before ++ line :: after ∧
        List.Forall₂ (fun line text =>
          Writes host lineEditing debug [line] (text ++ closing) (.exit 0)) before texts ∧
        Writes host lineEditing debug [line] text (.broken b) ∧
        Writes host lineEditing debug lines (String.join texts ++ text) (.broken b) ∧
        ∃ output, Program.BreaksDown line output b := by
  have hadds : ∀ line text, Adds host debug line text →
      Writes host lineEditing debug [line] (text ++ closing) (.exit 0) :=
    fun line text h => h.writes lineEditing
  rcases converses_cases hquit hends with ⟨texts, htexts, hlines⟩ |
    ⟨before, line, after, texts, text, b, hsplit, htexts, hline, hlines, hbreaks⟩
  · exact .inl ⟨texts, htexts.imp hadds, hlines.writes lineEditing⟩
  · exact .inr ⟨before, line, after, texts, text, b, hsplit, htexts.imp hadds,
      hline.writes lineEditing, hlines.writes lineEditing, hbreaks⟩

/-- A value, a tree that is too deep for the stack, a fault and a parse error in a session that goes
on to its end. -/
theorem session_of_lines_faults :
    let host : Host := .ofLevels 2
    let lines := ["1", "let x = 5 in Print x", "x", "1 where = 2"]
    (∀ line ∈ lines, ¬ IsQuit line) ∧ (∀ line ∈ lines, Ends host false line) ∧
      ∃ texts, List.Forall₂ (fun line text =>
          Writes host true false [line] (text ++ closing) (.exit 0)) lines texts ∧
        Writes host true false lines (String.join texts ++ closing) (.exit 0) := by
  intro host lines
  have hquit : ∀ line ∈ lines, ¬ IsQuit line := by
    unfold IsQuit
    decide +kernel
  have hruns : ∀ line ∈ lines, (Program.run 20 line).map Outcome.breakdown? = some none := by
    decide +kernel
  have hends : ∀ line ∈ lines, Ends host false line := by
    intro line hline
    obtain ⟨o, ho, -⟩ := Option.map_eq_some_iff.mp (hruns line hline)
    exact ⟨20, respond_ne_unfinished ho⟩
  refine ⟨hquit, hends, ?_⟩
  rcases session_of_lines host true hquit hends with h |
    ⟨before, line, after, -, -, b, hsplit, -, -, -, output, hbreaks⟩
  · exact h
  · obtain ⟨budget, hbroken⟩ := Program.run_iff_breaksDown.mpr hbreaks
    have hline : line ∈ lines := by
      rw [hsplit]
      exact List.mem_append_right _ List.mem_cons_self
    obtain ⟨o, ho, hreported⟩ := Option.map_eq_some_iff.mp (hruns line hline)
    rw [Program.run_unique ho hbroken] at hreported
    cases hreported

/-- Not every session comes to the end of its input, however much stack there is: one that meets a
number of 4301 digits leaves the next line unread. -/
theorem not_session_of_lines : ¬ ∀ lines : List String, (∀ line ∈ lines, ¬ IsQuit line) →
    (∀ line ∈ lines, Ends .unbounded false line) →
    ∃ text, Writes .unbounded true false lines (text ++ closing) (.exit 0) := by
  intro h
  have hquit : ∀ line ∈ ["10 ** 4300", "1"], ¬ IsQuit line := by
    unfold IsQuit
    decide +kernel
  have hruns : ∀ line ∈ ["10 ** 4300", "1"], (Program.run 20 line).isSome := by decide +kernel
  have hends : ∀ line ∈ ["10 ** 4300", "1"], respond .unbounded 20 false line ≠ .unfinished := by
    intro line hline
    obtain ⟨o, ho⟩ := Option.isSome_iff_exists.mp (hruns line hline)
    exact respond_ne_unfinished ho
  have hbroken : (converse .unbounded 21 false [.line "10 ** 4300"]).ending =
      .broken .tooManyDigits := by
    decide +kernel
  obtain ⟨answer, hanswer⟩ := broken_of_ending hbroken
  have hreply : Replies .unbounded false "10 ** 4300" (.broken answer .tooManyDigits) :=
    hanswer ▸ replies_of_ends (hends _ List.mem_cons_self)
  obtain ⟨text, hexit⟩ := h _ hquit fun line hline => ⟨20, hends line hline⟩
  cases hexit.ending_unique ((Converses.broken hreply ["1"]).writes true)

end Interactive

end Rpal
