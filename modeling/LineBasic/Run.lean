import LineBasic.Error
import LineBasic.Program
import LineBasic.Statement.Execution

/-!
# Running a program

A run is at a line, with the lines after it at hand, or it is over. One step executes the line's
statement: execution goes on with the next line at hand, or with the line that a jump names, found
among the lines of the program together with those after it. So a run needs no index of the
program, and falling through never searches.

A run may be limited to a number of steps. A program that would take another one has exceeded the
limit, at the line it would have executed; the limit has no effect before that. A run without a
limit may never end, and is followed only up to a *horizon*, which its caller sets beyond any number
of steps that could be taken; a run cut off there is reported as unfinished, and never as anything
else.

The sink is flushed when a run has ended, and not after an error.

## Main definitions

* `Run.step`, `Run.advance`: one step, and up to a number of steps;
* `Program.run`: the outcome of a whole run.
-/

namespace LineBasic

/-- A run between two steps. -/
inductive Run where
  /-- About to execute a line. -/
  | active (line : ProgramLine) (later : List ProgramLine) (state : State)
  /-- Past the last line, or stopped by the program. -/
  | ended (state : State)
  /-- Stopped by an error in a line. -/
  | failed (line : LineNumber) (error : RuntimeError) (state : State)

namespace Run

/-- What the run acts on. -/
def state : Run → State
  | .active _ _ state => state
  | .ended state => state
  | .failed _ _ state => state

/-- A run about to execute the first of some lines. -/
def ofLines (lines : List ProgramLine) (state : State) : Run :=
  match lines with
  | [] => .ended state
  | line :: later => .active line later state

/-- Executes one line, unless the run is over. -/
def step (p : Program) : Run → Run
  | .active line later state =>
    match line.statement.execute state with
    | (.ok .onward, state) => ofLines later state
    | (.ok .halt, state) => .ended state
    | (.ok (.jump target), state) =>
      match p.from? target with
      | some (line, later) => .active line later state
      | none => .failed line.number (.undefinedLine target) state
    | (.error error, state) => .failed line.number error state
  | finished => finished

/-- Executes up to `n` lines. -/
def advance (p : Program) : Nat → Run → Run
  | 0, run => run
  | n + 1, .active line later state => advance p n (step p (.active line later state))
  | _ + 1, finished => finished

/-- What comes of a run that was followed for the given number of steps, under a limit or, if the
limit is zero, under none. -/
def conclude (limit : Nat) : Run → Except Error Unit × State
  | .active line _ state =>
    if limit = 0 then (.error (.unfinished line.number), state)
    else (.error (.runtime line.number (.stepLimit limit)), state)
  | .ended state =>
    match state.console.flush with
    | .ok () => (.ok (), state)
    | .error fault => (.error (.channel fault), state)
  | .failed line error state => (.error (.runtime line error), state)

end Run

/-- How long a run may take. -/
structure Budget where
  /-- The greatest number of steps, or zero for no limit. -/
  limit : Nat
  /-- How far a run without a limit is followed. -/
  horizon : Nat
  deriving DecidableEq, Repr

namespace Budget

/-- The number of steps a run is followed. -/
def steps (b : Budget) : Nat := if b.limit = 0 then b.horizon else b.limit

/-- The limit when none is chosen. -/
def defaultLimit : Nat := 1000000

/-- A horizon that no run reaches: at a billion steps a second it is a century away. -/
def farHorizon : Nat := Nat.pow 2 62

/-- The budget for a limit. -/
def ofLimit (limit : Nat) : Budget := ⟨limit, farHorizon⟩

end Budget

/-- Runs a program from its first line. -/
def Program.run (p : Program) (budget : Budget) (state : State) : Except Error Unit × State :=
  (Run.advance p budget.steps (Run.ofLines p.lines state)).conclude budget.limit

end LineBasic
