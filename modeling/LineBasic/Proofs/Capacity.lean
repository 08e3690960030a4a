import LineBasic.Proofs.Budget
import LineBasic.Proofs.InputLines
import LineBasic.Session

/-!
# Sinks that take only so many bytes

A program whose sink has a bound runs as it does on a sink without one, until it would write more
than the sink takes. The statement that does so fails there and then: as much of its text as fits
is written, and nothing else is changed by it. So the store, and the input that is left, are those
before the statement, also if it was an `INPUT` whose prompt did not come out whole.

What carries the comparison is that the unbounded run has not yet written more than fits: then the
two runs are the same but for the bound (`Run.withCapacity`). The first step after which that is no
longer so is the step at which the bounded run stops.

## Main definitions

* `Console.withCapacity`, `State.withCapacity`, `Run.withCapacity`: the same, with a bounded sink;
* `State.cutOff`: what is left by a statement whose text does not fit;
* `Program.Overflows`: the step of a run that writes the first byte too many.

## Main results

* `Console.write_withCapacity`, `Console.ask_withCapacity`: writing and asking;
* `Statement.execute_withCapacity`, `Run.step_withCapacity`: one statement, and one step;
* `Program.run_withCapacity`: a whole run.
-/

namespace LineBasic

/-! ## Consoles -/

namespace Console

/-- The console with a sink that takes only so many bytes in all. -/
def withCapacity (capacity : Nat) (c : Console) : Console := { c with capacity := some capacity }

/-- The console before something was written, and after it as much of the output as fits. -/
def cutOff (capacity : Nat) (before after : Console) : Console :=
  { before.withCapacity capacity with
    output := (after.output.toList.take capacity).toArray }

variable {c : Console} {capacity : Nat}

/-- A text is written as it is to a sink without a bound, or cut off and refused. -/
theorem write_withCapacity (h : c.capacity = none) (hroom : c.output.size ≤ capacity)
    (text : String) :
    (c.withCapacity capacity).write text =
      if (c.write text).2.output.size ≤ capacity then
        (.ok (), (c.write text).2.withCapacity capacity)
      else (.error .full, c.cutOff capacity (c.write text).2) := by
  have hsize : (c.output ++ encode text).size = c.output.size + (encode text).length := by
    rw [← Array.length_toList]
    simp
  have hbounded : (c.withCapacity capacity).write text =
      if (encode text).length ≤ capacity - c.output.size then
        (.ok (), { c.withCapacity capacity with output := c.output ++ encode text })
      else
        (.error .full, { c.withCapacity capacity with
          output := c.output ++ (encode text).take (capacity - c.output.size) }) := rfl
  rw [hbounded, write_of_unbounded h]
  dsimp only
  rw [hsize]
  by_cases hfits : c.output.size + (encode text).length ≤ capacity
  · rw [if_pos (by omega), if_pos hfits]
    rfl
  · have hcut : c.output ++ (encode text).take (capacity - c.output.size) =
        ((c.output ++ encode text).toList.take capacity).toArray := by
      apply Array.toList_inj.mp
      simp [List.take_append, List.take_of_length_le hroom]
    rw [if_neg (by omega), if_neg hfits, hcut]
    rfl

/-- Reading has nothing to do with the sink. -/
theorem readLine_withCapacity (capacity : Nat) (c : Console) :
    (c.withCapacity capacity).readLine =
      (c.readLine.1, c.readLine.2.withCapacity capacity) := by
  cases hread : c.faults.read c.input with
  | some fault =>
      have hbounded : (c.withCapacity capacity).faults.read (c.withCapacity capacity).input =
          some fault := hread
      rw [readLine_of_fault hbounded, readLine_of_fault hread]
  | none =>
      have hbounded : (c.withCapacity capacity).faults.read (c.withCapacity capacity).input =
          none := hread
      rw [readLine_eq hbounded, readLine_eq hread]
      rfl

theorem output_readLine (c : Console) : c.readLine.2.output = c.output := by
  obtain ⟨rest, -, hread⟩ := c.exists_readLine
  rw [hread]

/-- A line is asked for as it is on a sink without a bound, or the prompt is cut off and no line is
taken. -/
theorem ask_withCapacity (h : c.Reliable) (hroom : c.output.size ≤ capacity) :
    (c.withCapacity capacity).ask =
      if c.ask.2.output.size ≤ capacity then (c.ask.1, c.ask.2.withCapacity capacity)
      else (.error .full, c.cutOff capacity c.ask.2) := by
  obtain ⟨written, hwrite, hwritten⟩ := h.exists_write "? "
  have hbounded := write_withCapacity h.unbounded hroom "? "
  have hask := ask_of_announces h.announces
  rw [hwrite] at hbounded hask
  have houtput : c.ask.2.output = written.output := by rw [hask, output_readLine]
  unfold cutOff
  rw [houtput, hask]
  unfold ask
  rw [hbounded]
  by_cases hfits : written.output.size ≤ capacity
  · have hflush : (written.withCapacity capacity).flush = .ok () := hwritten.flush_eq
    rw [if_pos hfits, if_pos hfits]
    simp only [hflush, readLine_withCapacity]
  · rw [if_neg hfits, if_neg hfits]
    rfl

end Console

/-! ## Statements -/

namespace State

/-- The state with a sink that takes only so many bytes in all. -/
def withCapacity (capacity : Nat) (s : State) : State :=
  { s with console := s.console.withCapacity capacity }

/-- Whether the sink would take all that has been written. -/
def Fits (capacity : Nat) (s : State) : Prop := s.console.output.size ≤ capacity

instance (capacity : Nat) (s : State) : Decidable (s.Fits capacity) :=
  inferInstanceAs (Decidable (s.console.output.size ≤ capacity))

/-- The state before a statement, and as much of the output after it as the sink takes. -/
def cutOff (capacity : Nat) (before after : State) : State :=
  { before with console := before.console.cutOff capacity after.console }

/-- What an outcome from a state becomes if the sink takes only so many bytes. -/
def capped (capacity : Nat) (s : State) (outcome : Except RuntimeError Flow × State) :
    Except RuntimeError Flow × State :=
  if outcome.2.Fits capacity then (outcome.1, outcome.2.withCapacity capacity)
  else (.error (.channel .full), s.cutOff capacity outcome.2)

variable {s : State} {capacity : Nat}

theorem capped_of_fits {outcome : Except RuntimeError Flow × State}
    (h : outcome.2.Fits capacity) :
    s.capped capacity outcome = (outcome.1, outcome.2.withCapacity capacity) := if_pos h

theorem capped_of_not_fits {outcome : Except RuntimeError Flow × State}
    (h : ¬outcome.2.Fits capacity) :
    s.capped capacity outcome = (.error (.channel .full), s.cutOff capacity outcome.2) := if_neg h

/-- Setting a variable has nothing to do with the sink. -/
theorem assign_withCapacity (capacity : Nat) (s : State) (name : String) (value : Value) :
    (s.withCapacity capacity).assign name value =
      ((s.assign name value).1, (s.assign name value).2.withCapacity capacity) :=
  assign_mapConsole (Console.withCapacity capacity) s name value

end State

section Execution

variable {s : State} {capacity : Nat}

/-- An action on a bounded sink. -/
theorem Action.perform_withCapacity (h : s.console.Reliable) (hfits : s.Fits capacity)
    (a : Action) :
    a.perform (s.withCapacity capacity) = s.capped capacity (a.perform s) := by
  have hstore : (s.withCapacity capacity).store = s.store := rfl
  have hconsole : (s.withCapacity capacity).console = s.console.withCapacity capacity := rfl
  cases a with
  | pass => rw [State.capped_of_fits hfits]; rfl
  | assign name value =>
      simp only [perform, hstore]
      cases value.eval s.store with
      | ok value =>
          have hassigned : (s.assign name value).2.Fits capacity := by
            unfold State.Fits
            rwa [State.console_assign]
          simp only [State.assign_withCapacity, State.capped_of_fits hassigned]
      | error error => rw [State.capped_of_fits hfits]
  | print items =>
      simp only [perform, hstore, hconsole]
      cases items.mapM (Expr.eval s.store) with
      | ok values =>
          simp only
          generalize " ".intercalate (values.map Value.print) ++ "\n" = text
          obtain ⟨written, hwrite, -⟩ := h.exists_write text
          have hbounded := Console.write_withCapacity h.unbounded hfits text
          rw [hwrite] at hbounded ⊢
          by_cases hwritten : written.output.size ≤ capacity
          · have hafter : State.Fits capacity { s with console := written } := hwritten
            rw [hbounded, if_pos hwritten, State.capped_of_fits hafter]
            rfl
          · have hafter : ¬State.Fits capacity { s with console := written } := hwritten
            rw [hbounded, if_neg hwritten, State.capped_of_not_fits hafter]
            rfl
      | error error => rw [State.capped_of_fits hfits]
  | input name =>
      have hasked := console_input name s
      by_cases hprompt : s.console.ask.2.output.size ≤ capacity
      · have hafter : ((Action.input name).perform s).2.Fits capacity := by
          unfold State.Fits
          rwa [hasked]
        rw [State.capped_of_fits hafter]
        simp only [perform, hconsole, Console.ask_withCapacity h hfits, if_pos hprompt]
        generalize s.console.ask = outcome
        obtain ⟨result, console⟩ := outcome
        cases result with
        | ok line =>
            simp only
            cases Value.ofInput name line with
            | ok value => exact State.assign_withCapacity capacity { s with console } name value
            | error error => rfl
        | error fault => rfl
      · have hafter : ¬((Action.input name).perform s).2.Fits capacity := by
          unfold State.Fits
          rwa [hasked]
        rw [State.capped_of_not_fits hafter, State.cutOff, hasked]
        simp only [perform, hconsole, Console.ask_withCapacity h hfits, if_neg hprompt]
        rfl
  | jump target => rw [State.capped_of_fits hfits]; rfl
  | stop => rw [State.capped_of_fits hfits]; rfl

/-- **One statement.** On a bounded sink a statement does what it does on an unbounded one, if the
sink takes all that it writes. If not, it fails, and leaves everything as it was but the part of its
text that fits. -/
theorem Statement.execute_withCapacity (h : s.console.Reliable) (hfits : s.Fits capacity)
    (statement : Statement) :
    statement.execute (s.withCapacity capacity) = s.capped capacity (statement.execute s) := by
  have hstore : (s.withCapacity capacity).store = s.store := rfl
  unfold execute
  rw [hstore]
  cases statement.select s.store with
  | ok action => exact action.perform_withCapacity h hfits
  | error error => rw [State.capped_of_fits hfits]

end Execution

/-! ## Runs -/

namespace Run

/-- The run with a sink that takes only so many bytes in all. -/
def withCapacity (capacity : Nat) : Run → Run
  | .active line later state => .active line later (state.withCapacity capacity)
  | .ended state => .ended (state.withCapacity capacity)
  | .failed line error state => .failed line error (state.withCapacity capacity)

variable {p : Program} {capacity : Nat}

theorem withCapacity_eq (capacity : Nat) (run : Run) :
    run.withCapacity capacity = run.mapState (State.withCapacity capacity) := by
  cases run <;> rfl

/-- **One step.** On a bounded sink a line does what it does on an unbounded one, or the run fails
at this line for want of room. -/
theorem step_withCapacity {line : ProgramLine} {later : List ProgramLine} {s : State}
    (h : s.console.Reliable) (hfits : s.Fits capacity) :
    (active line later (s.withCapacity capacity)).step p =
      if ((active line later s).step p).state.Fits capacity then
        ((active line later s).step p).withCapacity capacity
      else .failed line.number (.channel .full)
        (s.cutOff capacity ((active line later s).step p).state) := by
  have hexecute := line.statement.execute_withCapacity h hfits
  rw [state_step]
  by_cases hafter : (line.statement.execute s).2.Fits capacity
  · rw [State.capped_of_fits hafter] at hexecute
    rw [if_pos hafter, withCapacity_eq]
    exact step_mapState hexecute
  · rw [State.capped_of_not_fits hafter] at hexecute
    rw [if_neg hafter]
    simp only [step, hexecute]

/-- The bound plays no part in what comes of a run. -/
theorem conclude_withCapacity (limit capacity : Nat) (run : Run) :
    (run.withCapacity capacity).conclude limit =
      ((run.conclude limit).1, (run.conclude limit).2.withCapacity capacity) := by
  rw [withCapacity_eq]
  exact conclude_mapState rfl limit

end Run

namespace Program

variable {p : Program} {state : State} {capacity : Nat}

/-- Step `k + 1` of a course, at a line, is the one that writes the first byte too many. -/
structure Overflows (p : Program) (state : State) (capacity k : Nat) (line : ProgramLine)
    (before after : State) : Prop where
  executing : ∃ later, p.course state k = .active line later before
  leaves : (p.course state (k + 1)).state = after
  fits : before.Fits capacity
  exceeds : ¬after.Fits capacity

/-- The course on a bounded sink is that on an unbounded one as long as everything fits. Then it has
failed, at the first line that wrote too much. -/
theorem course_withCapacity (h : state.console.Reliable) (hfits : state.Fits capacity) (n : Nat) :
    ((p.course state n).state.Fits capacity ∧
        p.course (state.withCapacity capacity) n = (p.course state n).withCapacity capacity) ∨
      ∃ k < n, ∃ line before after, p.Overflows state capacity k line before after ∧
        p.course (state.withCapacity capacity) n =
          .failed line.number (.channel .full) (before.cutOff capacity after) := by
  induction n with
  | zero =>
      refine .inl ⟨?_, ?_⟩
      · unfold course
        rwa [Run.state_ofLines]
      · rw [Run.withCapacity_eq]
        exact Run.ofLines_mapState (State.withCapacity capacity) p.lines state
  | succ n ih =>
      have hfree : p.course state (n + 1) = (p.course state n).step p := rfl
      rcases ih with ⟨hsofar, hsame⟩ | ⟨k, hk, line, before, after, hoverflows, hfailed⟩
      · have hreliable := p.reliable_course h n
        have hnext : p.course (state.withCapacity capacity) (n + 1) =
            ((p.course state n).withCapacity capacity).step p := congrArg (Run.step p) hsame
        rw [hnext, hfree]
        cases hrun : p.course state n with
        | active line later before =>
            rw [hrun] at hsofar hreliable hfree
            have hstep :=
              @Run.step_withCapacity p capacity line later before hreliable hsofar
            by_cases hafter : ((Run.active line later before).step p).state.Fits capacity
            · rw [if_pos hafter] at hstep
              exact .inl ⟨hafter, hstep⟩
            · -- This is the step that writes too much.
              rw [if_neg hafter] at hstep
              have hoverflows : p.Overflows state capacity n line before
                  ((Run.active line later before).step p).state :=
                ⟨⟨later, hrun⟩, congrArg Run.state hfree, hsofar, hafter⟩
              exact .inr ⟨n, Nat.lt_succ_self n, line, before, _, hoverflows, hstep⟩
        | ended last =>
            rw [hrun] at hsofar
            exact .inl ⟨hsofar, rfl⟩
        | failed line error last =>
            rw [hrun] at hsofar
            exact .inl ⟨hsofar, rfl⟩
      · -- The bounded run has failed before, and stays as it is.
        have hstays : p.course (state.withCapacity capacity) (n + 1) =
            .failed line.number (.channel .full) (before.cutOff capacity after) :=
          congrArg (Run.step p) hfailed
        exact .inr ⟨k, Nat.lt_succ_of_lt hk, line, before, after, hoverflows, hstays⟩

/-- What is too much at some step is the beginning of what there is later. -/
theorem Overflows.take_output {k : Nat} {line : ProgramLine} {before after : State}
    (h : p.Overflows state capacity k line before after) {n : Nat} (hk : k < n) :
    after.console.output.toList.take capacity =
        (p.course state n).state.console.output.toList.take capacity ∧
      ¬(p.course state n).state.Fits capacity := by
  obtain ⟨more, rfl⟩ := Nat.exists_eq_add_of_le (Nat.succ_le_of_lt hk)
  have hprefix := (Run.precedes_advance p more (p.course state (k + 1))).output
  rw [← course_add, h.leaves] at hprefix
  obtain ⟨further, hfurther⟩ := hprefix
  have hexceeds : capacity < after.console.output.toList.length := Nat.lt_of_not_le h.exceeds
  constructor
  · rw [← hfurther, List.take_append_of_le_length (Nat.le_of_lt hexceeds)]
  · intro hfits
    have hlength := congrArg List.length hfurther
    rw [List.length_append] at hlength
    have hroom : (p.course state (k + 1 + more)).state.console.output.toList.length ≤ capacity :=
      hfits
    omega

/-- **A sink that fills up** cuts the output off and stops the run, at the right place. On a sink
that takes only so many bytes a program writes the beginning of what it writes on one that never
fails, as far as there is room. If there is room for everything, nothing else is different either.
If not, the program fails at the line whose step writes the first byte too many, with the store and
the input from before that step. The stored program is the same in any case. -/
theorem run_withCapacity (p : Program) (budget : Budget) {state : State} {capacity : Nat}
    (hreliable : state.console.Reliable) (hroom : state.console.output.size ≤ capacity) :
    (p.run budget (state.withCapacity capacity)).2.console.output.toList =
        (p.run budget state).2.console.output.toList.take capacity ∧
      ((p.run budget state).2.console.output.size ≤ capacity →
        p.run budget (state.withCapacity capacity) =
          ((p.run budget state).1, (p.run budget state).2.withCapacity capacity)) ∧
      (capacity < (p.run budget state).2.console.output.size →
        ∃ k < budget.steps, ∃ line before after,
          p.Overflows state capacity k line before after ∧
          (p.run budget (state.withCapacity capacity)).1 =
            .error (.runtime line.number (.channel .full)) ∧
          (p.run budget (state.withCapacity capacity)).2.store = before.store ∧
          (p.run budget (state.withCapacity capacity)).2.console.input = before.console.input) ∧
      (Session.run ⟨p, state.withCapacity capacity, budget⟩).2.program = p := by
  have hfree := p.run_eq_course budget state
  have hbounded := p.run_eq_course budget (state.withCapacity capacity)
  have hstate : (p.run budget state).2 = (p.course state budget.steps).state := by
    rw [hfree, Run.state_conclude]
  rcases p.course_withCapacity hreliable hroom budget.steps with
    ⟨hfits, hsame⟩ | ⟨k, hk, line, before, after, hoverflows, hfailed⟩
  · rw [hsame, Run.conclude_withCapacity, ← hfree] at hbounded
    rw [← hstate] at hfits
    refine ⟨?_, fun _ => hbounded, fun hover => absurd hfits (Nat.not_le_of_lt hover), rfl⟩
    rw [hbounded]
    exact (List.take_of_length_le hfits).symm
  · obtain ⟨htake, hexceeds⟩ := hoverflows.take_output hk
    rw [hfailed] at hbounded
    rw [← hstate] at htake hexceeds
    refine ⟨?_, fun hfits => absurd hfits hexceeds, fun _ => ?_, rfl⟩
    · rw [hbounded, ← htake]
      rfl
    · refine ⟨k, hk, line, before, after, hoverflows, ?_⟩
      rw [hbounded]
      exact ⟨rfl, rfl, rfl⟩

/-- A line that writes, and one that asks under a condition. -/
def greeting : Program :=
  (empty.insert ⟨10, "PRINT \"AB\"", .print [.text "AB"]⟩).insert
    ⟨20, "IF \"A\" THEN INPUT A$", .ifThen (.binary (.text "A") .equal (.text "A")) (.input "A$")⟩

/-- With room for four bytes the prompt of the second line is cut in half and the answer is still
there. With room for five, nothing is different from a sink that never fails. -/
theorem run_withCapacity_greeting :
    let start : State := ⟨.empty, .ofInput (Console.encode "yes\n")⟩
    start.console.Reliable ∧ start.console.output.size ≤ 4 ∧
      (greeting.run ⟨2, 0⟩ (start.withCapacity 4)).2.console.output.toList =
        Console.encode "AB\n?" ∧
      (greeting.run ⟨2, 0⟩ (start.withCapacity 4)).1 = .error (.runtime 20 (.channel .full)) ∧
      (greeting.run ⟨2, 0⟩ (start.withCapacity 4)).2.console.input = Console.encode "yes\n" ∧
      greeting.run ⟨2, 0⟩ (start.withCapacity 5) =
        ((greeting.run ⟨2, 0⟩ start).1, (greeting.run ⟨2, 0⟩ start).2.withCapacity 5) := by
  intro start
  have hreliable : start.console.Reliable := ⟨rfl, fun _ => rfl⟩
  obtain ⟨houtput, -, hfull, -⟩ :=
    @run_withCapacity greeting ⟨2, 0⟩ start 4 hreliable (by decide)
  obtain ⟨-, hroom, -⟩ := @run_withCapacity greeting ⟨2, 0⟩ start 5 hreliable (by decide)
  obtain ⟨k, hk, line, before, after, hoverflows, herror, -, hinput⟩ := hfull (by decide +kernel)
  have hsecond : k = 1 := by
    have hfits : (greeting.course start 1).state.Fits 4 := by decide +kernel
    have hlater : k ≠ 0 := by
      rintro rfl
      exact hoverflows.exceeds (hoverflows.leaves ▸ hfits)
    have hsteps : k < 2 := hk
    omega
  subst hsecond
  obtain ⟨later, hline⟩ := hoverflows.executing
  injection hline with hline hlater hbefore
  rw [← hline] at herror
  rw [← hbefore] at hinput
  refine ⟨hreliable, by decide, ?_, herror, hinput, hroom (by decide +kernel)⟩
  rw [houtput]
  decide +kernel

end Program

end LineBasic
