import LineBasic.Run

/-!
# The steps of a run

A step executes the statement of one line and then goes one of five ways. Each way is a constructor
of `Run.Next`, with what the statement came to, so whatever is said of a step is said by cases on
it.

Two runs that are at the same line and differ in their states alone go the same way if the statement
of the line comes to the same in both. So a change of states that statements do not notice is not
noticed by steps either.

## Main definitions

* `Run.Next`: the ways on from a line;
* `Run.mapState`: a run with its state changed.

## Main results

* `Run.next_step`: what a step can do;
* `Run.advance_succ`, `Run.advance_add`: following a run step by step, and in two stages;
* `Run.of_conclude`: how a run can be aborted;
* `Run.step_mapState`: a change of states that a statement does not notice.
-/

namespace LineBasic

/-- Following a run for one step more is following it from its next step. -/
theorem Run.advance_succ (p : Program) (n : Nat) (run : Run) :
    run.advance p (n + 1) = (run.step p).advance p n := by
  cases run with
  | active => rfl
  | ended => cases n <;> rfl
  | failed => cases n <;> rfl

/-- Following a run twice is following it once, for the steps of both. -/
theorem Run.advance_add (p : Program) (m n : Nat) (run : Run) :
    run.advance p (m + n) = (run.advance p m).advance p n := by
  induction m generalizing run with
  | zero => rw [Nat.zero_add]; rfl
  | succ m ih => rw [Nat.succ_add, advance_succ, advance_succ, ih]

/-! ## One step -/

/-- The five ways on from a line that is executed in a state. -/
inductive Run.Next (p : Program) (line : ProgramLine) (later : List ProgramLine) (state : State) :
    Run → Prop where
  | onward {after : State} :
      line.statement.execute state = (.ok .onward, after) →
        Next p line later state (ofLines later after)
  | halted {after : State} :
      line.statement.execute state = (.ok .halt, after) → Next p line later state (.ended after)
  | jumped {target : LineNumber} {after : State} {found : ProgramLine} {rest : List ProgramLine} :
      line.statement.execute state = (.ok (.jump target), after) →
        p.from? target = some (found, rest) → Next p line later state (.active found rest after)
  | undefined {target : LineNumber} {after : State} :
      line.statement.execute state = (.ok (.jump target), after) → p.from? target = none →
        Next p line later state (.failed line.number (.undefinedLine target) after)
  | faulted {error : RuntimeError} {after : State} :
      line.statement.execute state = (.error error, after) →
        Next p line later state (.failed line.number error after)

/-- A step goes one of the five ways. -/
theorem Run.next_step (p : Program) (line : ProgramLine) (later : List ProgramLine)
    (state : State) : Next p line later state ((active line later state).step p) := by
  simp only [step]
  cases hexecute : line.statement.execute state with
  | mk result after =>
      cases result with
      | error error => exact .faulted hexecute
      | ok flow =>
          cases flow with
          | onward => exact .onward hexecute
          | halt => exact .halted hexecute
          | jump target =>
              cases hfrom : p.from? target with
              | none =>
                  simp only [hfrom]
                  exact .undefined hexecute hfrom
              | some found =>
                  simp only [hfrom]
                  exact .jumped hexecute hfrom

/-- A run that is aborted in a line has exceeded its limit there, or has failed. -/
theorem Run.of_conclude {limit : Nat} {run : Run} {number : LineNumber} {error : RuntimeError}
    (h : (run.conclude limit).1 = .error (.runtime number error)) :
    (∃ line later state, run = .active line later state ∧ line.number = number ∧
        error = .stepLimit limit) ∨
      ∃ state, run = .failed number error state := by
  cases run with
  | active line later state =>
      simp only [conclude] at h
      split at h
      · cases h
      · injection h with h
        injection h with hnumber herror
        exact .inl ⟨line, later, state, rfl, hnumber, herror.symm⟩
  | ended state =>
      simp only [conclude] at h
      split at h
      · cases h
      · cases h
  | failed line found state =>
      injection h with h
      injection h with hnumber herror
      rw [hnumber, herror]
      exact .inr ⟨state, rfl⟩

/-! ## States that are changed -/

namespace Run

/-- The run with its state changed. -/
def mapState (f : State → State) : Run → Run
  | .active line later state => .active line later (f state)
  | .ended state => .ended (f state)
  | .failed line error state => .failed line error (f state)

variable {f : State → State}

theorem ofLines_mapState (f : State → State) (lines : List ProgramLine) (state : State) :
    ofLines lines (f state) = (ofLines lines state).mapState f := by
  cases lines <;> rfl

/-- A change that the statement of a line does not notice is not noticed by the step. -/
theorem step_mapState {p : Program} {line : ProgramLine} {later : List ProgramLine} {state : State}
    (h : line.statement.execute (f state) =
      ((line.statement.execute state).1, f (line.statement.execute state).2)) :
    (active line later (f state)).step p = ((active line later state).step p).mapState f := by
  simp only [step, h]
  generalize line.statement.execute state = outcome
  obtain ⟨result, after⟩ := outcome
  cases result with
  | error error => rfl
  | ok flow =>
      cases flow with
      | onward => exact ofLines_mapState f later after
      | halt => rfl
      | jump target =>
          simp only
          cases p.from? target <;> rfl

/-- A change that flushing does not notice is not noticed when a run is concluded. -/
theorem conclude_mapState {run : Run}
    (h : (f run.state).console.flush = run.state.console.flush) (limit : Nat) :
    (run.mapState f).conclude limit = ((run.conclude limit).1, f (run.conclude limit).2) := by
  cases run with
  | active line later state =>
      simp only [mapState, conclude]
      split <;> rfl
  | ended state =>
      have hflush : (f state).console.flush = state.console.flush := h
      simp only [mapState, conclude, hflush]
      cases state.console.flush <;> rfl
  | failed line error state => rfl

end Run

end LineBasic
