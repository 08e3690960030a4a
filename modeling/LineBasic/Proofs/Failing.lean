import LineBasic.Proofs.Budget
import LineBasic.Proofs.Faults
import LineBasic.Proofs.Questions

/-!
# What a failing statement leaves behind

Conditions and expressions are evaluated before anything is done, so an error in one of them finds
the state as it was. A variable that is refused a value keeps its own. What is left that can fail
half way are the channels, and `INPUT`: its prompt is out and its line is gone when the line turns
out to be no number, or when there was none. So a statement that fails leaves the variables alone in
any case, and the channels too unless they are what failed or the statement asked
(`Statement.Leaves`). A jump does nothing to the state, whether there is a line to jump to or not,
so the same is true of a step.

A run that fails has failed in one of its steps. Its variables are therefore those that the steps
before had set.

## Main definitions

* `Console.asked`: a console behind one question;
* `Statement.Leaves`: what a statement leaves behind that fails.

## Main results

* `Statement.leaves_of_execute`, `Run.leaves_of_step`: one statement, and one step;
* `Statement.execute_of_failing_item`: a `PRINT` that fails;
* `Program.exists_failing_step`: the step in which a run fails;
* `Program.failures_leave`: all of this, and the variables of an aborted run.
-/

namespace LineBasic

/-! ## Consoles -/

namespace Console

/-- The console behind one question: the prompt is out, and one line of the input is gone, if there
was one. -/
def asked (c : Console) : Console :=
  { c with output := c.output ++ encode "? ", input := (inputLines c.input).tail.flatten }

variable {c d : Console}

/-- What is gone is the first line, or nothing. -/
theorem input_asked (c : Console) :
    (inputLines c.input).head?.getD [] ++ c.asked.input = c.input := by
  have hlines := flatten_inputLines c.input
  unfold asked
  cases hinput : inputLines c.input with
  | nil =>
      rw [hinput] at hlines
      exact hlines
  | cons line later =>
      rw [hinput] at hlines
      exact hlines

/-- A text that is written comes out whole. -/
theorem write_of_ok {text : String} (h : c.write text = (.ok (), d)) :
    d = { c with output := c.output ++ encode text } := by
  unfold write at h
  dsimp only at h
  split at h
  · injection h with _ h
    exact h.symm
  · split at h
    · injection h with _ h
      exact h.symm
    · cases h

/-- A line that is asked for is all that is taken. -/
theorem ask_of_ok {line : Option String} (h : c.ask = (.ok line, d)) : d = c.asked := by
  by_cases hprompts : c.prompts
  · obtain ⟨written, hwrite, -⟩ := announces_iff.mp (prompts_iff.mp hprompts).1
    rw [ask_eq hprompts, hwrite, write_of_ok hwrite] at h
    injection h with _ h
    exact h.symm
  · obtain ⟨fault, hask⟩ := ask_of_not_prompts hprompts
    rw [hask] at h
    cases h

end Console

/-! ## Statements -/

/-- An error of a channel. -/
def RuntimeError.isOfChannel : RuntimeError → Bool
  | .channel _ => true
  | _ => false

/-- What is left behind by a statement that fails. -/
structure Statement.Leaves (statement : Statement) (s : State) (error : RuntimeError)
    (after : State) : Prop where
  /-- Variables keep their values. -/
  store : after.store = s.store
  /-- A statement that does not ask leaves everything as it was. -/
  unasked : ¬error.isOfChannel → statement.asks? s.store = none → after = s
  /-- A statement that asks has done so, and no more. -/
  asked : ¬error.isOfChannel → ∀ name, statement.asks? s.store = some name →
    after = { s with console := s.console.asked }

section Execution

variable {s after : State} {error : RuntimeError}

/-- A value that is refused changes nothing. -/
theorem State.eq_of_assign {name : String} {value : Value}
    (h : s.assign name value = (.error error, after)) : after = s := by
  unfold assign at h
  split at h
  · cases h
  · injection h with _ h
    exact h.symm

/-- Asking fails behind the question, or with the channels. -/
theorem Action.leaves_of_input {name : String}
    (h : (Action.input name).perform s = (.error error, after)) :
    after.store = s.store ∧
      (¬error.isOfChannel → after = { s with console := s.console.asked }) := by
  unfold perform at h
  cases hask : s.console.ask with
  | mk result console =>
      simp only [hask] at h
      cases result with
      | ok line =>
          rw [Console.ask_of_ok hask] at h
          cases hvalue : Value.ofInput name line with
          | ok value =>
              simp only [hvalue] at h
              rw [State.eq_of_assign h]
              exact ⟨rfl, fun _ => rfl⟩
          | error found =>
              simp only [hvalue] at h
              injection h with _ h
              rw [← h]
              exact ⟨rfl, fun _ => rfl⟩
      | error fault =>
          injection h with herror h
          injection herror with herror
          rw [← h, ← herror]
          exact ⟨rfl, fun hchannel => absurd rfl hchannel⟩

/-- Any other action fails before it has done anything, or with the channels. -/
theorem Action.leaves_of_perform {a : Action} (hinput : ∀ name, a ≠ .input name)
    (h : a.perform s = (.error error, after)) :
    after.store = s.store ∧ (¬error.isOfChannel → after = s) := by
  have hsame (h : after = s) : after.store = s.store ∧ (¬error.isOfChannel → after = s) :=
    ⟨congrArg State.store h, fun _ => h⟩
  cases a with
  | pass => cases h
  | assign name value =>
      unfold perform at h
      cases heval : value.eval s.store with
      | ok value =>
          simp only [heval] at h
          exact hsame (State.eq_of_assign h)
      | error found =>
          simp only [heval] at h
          injection h with _ h
          exact hsame h.symm
  | print items =>
      unfold perform at h
      cases heval : items.mapM (Expr.eval s.store) with
      | ok values =>
          simp only [heval] at h
          generalize s.console.write _ = outcome at h
          obtain ⟨result, console⟩ := outcome
          cases result with
          | ok _ => cases h
          | error fault =>
              injection h with herror h
              injection herror with herror
              rw [← h, ← herror]
              exact ⟨rfl, fun hchannel => absurd rfl hchannel⟩
      | error found =>
          simp only [heval] at h
          injection h with _ h
          exact hsame h.symm
  | input name => exact absurd rfl (hinput name)
  | jump target => cases h
  | stop => cases h

namespace Statement

variable {statement : Statement}

/-- **One statement** that fails. -/
theorem leaves_of_execute (h : statement.execute s = (.error error, after)) :
    statement.Leaves s error after := by
  cases hasks : statement.asks? s.store with
  | some name =>
      rw [execute_of_asks? hasks] at h
      obtain ⟨hstore, hafter⟩ := Action.leaves_of_input h
      refine ⟨hstore, fun _ hnone => ?_, fun hchannel _ _ => hafter hchannel⟩
      rw [hasks] at hnone
      cases hnone
  | none =>
      have hquiet : after.store = s.store ∧ (¬error.isOfChannel → after = s) := by
        unfold execute at h
        cases hselect : statement.select s.store with
        | ok a =>
            rw [hselect] at h
            exact Action.leaves_of_perform (ne_input_of_select hasks hselect) h
        | error found =>
            rw [hselect] at h
            injection h with _ h
            exact ⟨congrArg State.store h.symm, fun _ => h.symm⟩
      refine ⟨hquiet.1, fun hchannel _ => hquiet.2 hchannel, fun _ name hsome => ?_⟩
      rw [hasks] at hsome
      cases hsome

/-- A statement that jumps leaves everything as it was. -/
theorem leaves_of_jump {target : LineNumber}
    (h : statement.execute s = (.ok (.jump target), after)) (error : RuntimeError) :
    statement.Leaves s error after := by
  have hselect := select_of_jump h
  have hafter : after = s := by
    rw [execute, hselect] at h
    injection h with _ h
    exact h.symm
  refine ⟨congrArg State.store hafter, fun _ _ => hafter, fun _ name hsome => ?_⟩
  rw [asks?_eq_some_iff, hselect] at hsome
  cases hsome

/-- Evaluations in a row fail if one of them does. -/
theorem exists_error_of_mapM {α β ε : Type} {f : α → Except ε β} {items : List α}
    (h : ∃ item ∈ items, ¬(f item).isOk) :
    ∃ item ∈ items, ∃ error, f item = .error error ∧ items.mapM f = .error error := by
  induction items with
  | nil =>
      obtain ⟨item, hmem, -⟩ := h
      cases hmem
  | cons first later ih =>
      rw [List.mapM_cons]
      cases hfirst : f first with
      | error error => exact ⟨first, List.mem_cons_self, error, hfirst, rfl⟩
      | ok value =>
          have hlater : ∃ item ∈ later, ¬(f item).isOk := by
            obtain ⟨item, hmem, hfails⟩ := h
            rcases List.mem_cons.mp hmem with rfl | hmem
            · rw [hfirst] at hfails
              exact absurd rfl hfails
            · exact ⟨item, hmem, hfails⟩
          obtain ⟨item, hmem, error, herror, hmap⟩ := ih hlater
          refine ⟨item, List.mem_cons_of_mem first hmem, error, herror, ?_⟩
          rw [hmap]
          rfl

/-- **A `PRINT`** fails with the error of one of its expressions, and writes nothing. -/
theorem execute_of_failing_item {items : List Expr}
    (hselect : statement.select s.store = .ok (.print items))
    (h : ∃ e ∈ items, ¬(e.eval s.store).isOk) :
    ∃ e ∈ items, ∃ error, e.eval s.store = .error error ∧
      statement.execute s = (.error error, s) := by
  obtain ⟨e, hmem, error, heval, hitems⟩ := exists_error_of_mapM h
  refine ⟨e, hmem, error, heval, ?_⟩
  simp only [execute, hselect, Action.perform, hitems]

end Statement

end Execution

/-! ## Runs -/

theorem Run.ofLines_ne_failed (lines : List ProgramLine) (state : State) (number : LineNumber)
    (error : RuntimeError) (after : State) : ofLines lines state ≠ .failed number error after := by
  cases lines <;> nofun

/-- **One step** that fails, for want of a line to jump to or in its statement. -/
theorem Run.leaves_of_step {p : Program} {line : ProgramLine} {later : List ProgramLine}
    {s after : State} {number : LineNumber} {error : RuntimeError}
    (h : (active line later s).step p = .failed number error after) :
    number = line.number ∧ line.statement.Leaves s error after := by
  have hnext := next_step p line later s
  generalize (active line later s).step p = next at hnext h
  cases hnext with
  | onward _ => exact absurd h (ofLines_ne_failed later _ number error after)
  | halted _ => cases h
  | jumped _ _ => cases h
  | undefined hexecute _ =>
      injection h with hnumber _ hafter
      rw [← hafter]
      exact ⟨hnumber.symm, Statement.leaves_of_jump hexecute error⟩
  | faulted hexecute =>
      injection h with hnumber herror hafter
      rw [← herror, ← hafter]
      exact ⟨hnumber.symm, Statement.leaves_of_execute hexecute⟩

namespace Program

variable {p : Program} {state last : State} {number : LineNumber} {error : RuntimeError}

/-- A course that has failed has done so in one of its steps. -/
theorem exists_failing_step {n : Nat} (h : p.course state n = .failed number error last) :
    ∃ k < n, ∃ line later before, p.course state k = .active line later before ∧
      p.course state (k + 1) = .failed number error last := by
  induction n with
  | zero => exact absurd h (Run.ofLines_ne_failed p.lines state number error last)
  | succ n ih =>
      have hstep : (p.course state n).step p = .failed number error last := h
      cases hrun : p.course state n with
      | active line later before =>
          exact ⟨n, Nat.lt_succ_self n, line, later, before, hrun, h⟩
      | ended before =>
          rw [hrun] at hstep
          cases hstep
      | failed found other before =>
          rw [hrun] at hstep
          obtain ⟨k, hk, hfails⟩ := ih (hrun.trans hstep)
          exact ⟨k, Nat.lt_succ_of_lt hk, hfails⟩

/-- A run is aborted by its limit, or has failed. -/
theorem course_of_aborted {budget : Budget}
    (h : p.run budget state = (.error (.runtime number error), last)) :
    (∃ line later, p.course state budget.steps = .active line later last ∧ line.number = number ∧
      error = .stepLimit budget.limit) ∨
      p.course state budget.steps = .failed number error last := by
  have hlast : last = (p.course state budget.steps).state := by
    rw [← Run.state_conclude budget.limit, ← run_eq_course, h]
  have hresult := congrArg Prod.fst h
  rw [run_eq_course] at hresult
  rcases Run.of_conclude hresult with
    ⟨line, later, before, hactive, hnumber, hlimit⟩ | ⟨before, hfailed⟩
  · rw [hactive] at hlast ⊢
    subst hlast
    exact .inl ⟨line, later, rfl, hnumber, hlimit⟩
  · rw [hfailed] at hlast ⊢
    subst hlast
    exact .inr rfl

/-- **Failures leave no trace in the variables**, and none on the channels but the question of an
`INPUT` and its line, unless it is a channel that fails. That is so for a statement and for a step,
in which the line to jump to may be missing as well. What the question takes is the first line of
the input, or nothing if there is none. In particular a `PRINT` writes nothing if one of its
expressions fails. A run that is aborted in a line has the variables that the steps before that line
have set: either the limit keeps the line from being executed, or the next step fails in it. -/
theorem failures_leave :
    (∀ (statement : Statement) (s after : State) (error : RuntimeError),
      statement.execute s = (.error error, after) → statement.Leaves s error after) ∧
      (∀ (p : Program) (line : ProgramLine) (later : List ProgramLine) (s after : State)
        (number : LineNumber) (error : RuntimeError),
        (Run.active line later s).step p = .failed number error after →
          number = line.number ∧ line.statement.Leaves s error after) ∧
      (∀ c : Console, (Console.inputLines c.input).head?.getD [] ++ c.asked.input = c.input) ∧
      (∀ (statement : Statement) (s : State) (items : List Expr),
        statement.select s.store = .ok (.print items) → (∃ e ∈ items, ¬(e.eval s.store).isOk) →
          ∃ e ∈ items, ∃ error, e.eval s.store = .error error ∧
            statement.execute s = (.error error, s)) ∧
      ∀ (p : Program) (budget : Budget) (state last : State) (number : LineNumber)
        (error : RuntimeError),
        p.run budget state = (.error (.runtime number error), last) →
          ∃ k ≤ budget.steps, ∃ line later before,
            p.course state k = .active line later before ∧ line.number = number ∧
              last.store = before.store ∧
              (k = budget.steps ∧ error = .stepLimit budget.limit ∧ last = before ∨
                p.course state (k + 1) = .failed number error last ∧
                  line.statement.Leaves before error last) := by
  refine ⟨fun statement s after error => Statement.leaves_of_execute,
    fun p line later s after number error => Run.leaves_of_step, Console.input_asked,
    fun statement s items => Statement.execute_of_failing_item,
    fun p budget state last number error h => ?_⟩
  rcases course_of_aborted h with ⟨line, later, hactive, hnumber, hlimit⟩ | hfailed
  · exact ⟨budget.steps, Nat.le_refl _, line, later, last, hactive, hnumber, rfl,
      .inl ⟨rfl, hlimit, rfl⟩⟩
  · obtain ⟨k, hk, line, later, before, hactive, hnext⟩ := exists_failing_step hfailed
    have hstep : (Run.active line later before).step p = .failed number error last := by
      rw [← hactive]
      exact hnext
    obtain ⟨hnumber, hleaves⟩ := Run.leaves_of_step hstep
    exact ⟨k, Nat.le_of_lt hk, line, later, before, hactive, hnumber.symm, hleaves.store,
      .inr ⟨hnext, hleaves⟩⟩

/-- A line that sets a variable, and one that prints it with a quotient that does not exist. -/
def dividing : Program :=
  (empty.insert ⟨10, "LET A$ = \"b\"", .assign "A$" (.text "b")⟩).insert
    ⟨20, "IF A$ = \"b\" THEN PRINT A$, 1 / 0",
      .ifThen (.binary (.variable "A$") .equal (.text "b"))
        (.print [.variable "A$", .binary (.number 1) .divide (.number 0)])⟩

/-- An `INPUT` under a condition takes a line that is no number, and nothing else. A jump that finds
no line, and a `PRINT` that fails at its end, leave everything as it was. A program that fails in
its second line leaves what its first line has set, and has printed nothing. -/
theorem failures_leave_dividing :
    let start : State := ⟨.empty, .ofInput (Console.encode "x\ny\n")⟩
    let prompting : Statement := .ifThen (.number 1) (.input "N")
    prompting.execute start =
        (.error (.inputFormat "x"),
          ⟨.empty, ⟨Console.encode "y\n", (Console.encode "? ").toArray, none, false⟩⟩) ∧
      Statement.Leaves (.jump 7) start (.undefinedLine 7) start ∧
      (∃ error,
        (Statement.print [.text "b", .binary (.number 1) .divide (.number 0)]).execute start =
          (.error error, start)) ∧
      (dividing.run ⟨2, 0⟩ start).1 = .error (.runtime 20 .divisionByZero) ∧
      (dividing.run ⟨2, 0⟩ start).2.store.get "A$" = .text "b" ∧
      (dividing.run ⟨2, 0⟩ start).2.console.output = #[] := by
  intro start prompting
  obtain ⟨hstatement, hstep, -, hprint, hrun⟩ := failures_leave
  have hinput : (prompting.execute start).1 = .error (.inputFormat "x") := by decide +kernel
  have hasks : prompting.asks? start.store = some "N" := by decide +kernel
  have hjump := hstep empty ⟨30, "GOTO 7", .jump 7⟩ [] start start 30 (.undefinedLine 7) rfl
  have hitems := hprint (.print [.text "b", .binary (.number 1) .divide (.number 0)]) start _ rfl
    ⟨.binary (.number 1) .divide (.number 0), by simp, by decide +kernel⟩
  obtain ⟨-, -, error, -, hwrites⟩ := hitems
  have hresult : (dividing.run ⟨2, 0⟩ start).1 = .error (.runtime 20 .divisionByZero) := by
    decide +kernel
  obtain ⟨k, hk, line, later, before, hactive, hnumber, hstore, hend⟩ :=
    hrun dividing ⟨2, 0⟩ start (dividing.run ⟨2, 0⟩ start).2 20 .divisionByZero
      (Prod.ext hresult rfl)
  -- Step 0 is in the first line, and after two steps the run is over.
  have hsecond : k = 1 := by
    have hsteps : k ≤ 2 := hk
    have hfirst : k ≠ 0 := by
      rintro rfl
      injection hactive with hline
      rw [← hline] at hnumber
      cases hnumber
    have hover : (dividing.course start 2).outcome?.isSome := by decide +kernel
    have hlast : k ≠ 2 := by
      rintro rfl
      rw [hactive] at hover
      cases hover
    omega
  subst hsecond
  have hbefore : (dividing.course start 1).state = before := congrArg Run.state hactive
  have hset : (dividing.course start 1).state.store.get "A$" = .text "b" := by decide +kernel
  have houtput : (dividing.course start 1).state.console.output = #[] := by decide +kernel
  have hleaves := hstatement prompting start (prompting.execute start).2 _ (Prod.ext hinput rfl)
  refine ⟨Prod.ext hinput (hleaves.asked (by decide) "N" hasks), hjump.2,
    ⟨error, hwrites⟩, hresult, ?_, ?_⟩
  · rw [hstore, ← hbefore, hset]
  · rcases hend with ⟨-, hlimit, -⟩ | ⟨-, hquiet⟩
    · cases hlimit
    · have hquestion : (Run.question? dividing (dividing.course start 1)).isNone := by
        decide +kernel
      rw [hactive, Option.isNone_iff_eq_none] at hquestion
      have hunasked := Run.asks?_of_question? hquestion
      rw [hquiet.unasked (by decide) hunasked, ← hbefore, houtput]

end Program

end LineBasic
