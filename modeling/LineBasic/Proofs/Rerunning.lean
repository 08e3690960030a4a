import LineBasic.Proofs.Budget
import LineBasic.Proofs.Faults
import LineBasic.Proofs.Questions
import LineBasic.Session

/-!
# Running again

`RUN` starts with no variable set. What else a run finds in its session are the channels: the bytes
to be read, which only `INPUT` looks at, and those already written, which nothing looks at. So on a
sink that never fails a program without `INPUT` does the same each time, whatever has happened in
the session before, an aborted run included.

The comparison is with a console on which nothing has been read or written. To put what
is written there behind the output of another console is a change of the state (`State.onto`) that
writing does not notice. So no statement that asks nothing notices it, and neither does a step, a
course, or a run.

## Main definitions

* `Statement.mayAsk`: the statements with an `INPUT` in them, at any depth of conditions;
* `Program.AsksNothing`: the programs without one;
* `Console.appending`, `State.onto`: channels that were used before;
* `Program.alone`: a run on channels of its own.

## Main results

* `Statement.execute_onto`, `Program.run_onto`: one statement, and a whole run;
* `Session.run_eq_alone`: what `RUN` does to a session;
* `Session.run_repeats`: `RUN` does the same again.
-/

namespace LineBasic

/-! ## Programs that ask nothing -/

/-- Whether a statement is an `INPUT`, or has one in it. -/
def Statement.mayAsk : Statement → Bool
  | .input _ => true
  | .ifThen _ body => body.mayAsk
  | _ => false

/-- A statement without an `INPUT` asks in no store. -/
theorem Statement.asks?_of_not_mayAsk {statement : Statement} (h : ¬statement.mayAsk)
    (store : Store) : statement.asks? store = none := by
  induction statement with
  | input target => exact absurd rfl h
  | ifThen condition body ih =>
      unfold asks?
      split
      · split
        · exact ih h
        · rfl
      · rfl
  | comment => rfl
  | assign target value => rfl
  | print items => rfl
  | ifJump condition target => rfl
  | jump target => rfl
  | stop => rfl

/-- No statement of the program has an `INPUT` in it. -/
def Program.AsksNothing (p : Program) : Prop := ∀ line ∈ p.lines, ¬line.statement.mayAsk

instance (p : Program) : Decidable p.AsksNothing :=
  inferInstanceAs (Decidable (∀ line ∈ p.lines, ¬line.statement.mayAsk))

/-! ## Consoles that go on -/

/-- The console when some more bytes have been written. -/
def Console.appending (c : Console) (bytes : Array UInt8) : Console :=
  { c with output := c.output ++ bytes }

theorem Console.Reliable.appending {c : Console} (h : c.Reliable) (bytes : Array UInt8) :
    (c.appending bytes).Reliable := ⟨h.unbounded, h.flushes⟩

/-- Writing does not notice what has been written before. -/
theorem Console.write_appending {c d : Console} (hc : c.Reliable) (hd : d.Reliable)
    (text : String) :
    (c.appending d.output).write text =
      ((d.write text).1, c.appending (d.write text).2.output) := by
  have happending : (c.appending d.output).capacity = none := hc.unbounded
  have houtput : c.output ++ d.output ++ encode text = c.output ++ (d.output ++ encode text) :=
    Array.toList_inj.mp (by simp)
  rw [write_of_unbounded happending, write_of_unbounded hd.unbounded]
  simp only [appending, houtput]

/-- The state if its program had found a console as it is, and had gone on there. -/
def State.onto (c : Console) (s : State) : State :=
  s.mapConsole fun d => c.appending d.output

section Execution

variable {c : Console} {s : State}

/-- No action but asking notices what has been written before, or what there is to be read. -/
theorem Action.perform_onto (hc : c.Reliable) (hs : s.console.Reliable) {a : Action}
    (hinput : ∀ name, a ≠ .input name) :
    a.perform (s.onto c) = ((a.perform s).1, (a.perform s).2.onto c) := by
  have hstore : (s.onto c).store = s.store := rfl
  have hconsole : (s.onto c).console = c.appending s.console.output := rfl
  cases a with
  | pass => rfl
  | assign name value =>
      simp only [perform, hstore]
      cases value.eval s.store with
      | ok value => exact State.assign_mapConsole _ s name value
      | error error => rfl
  | print items =>
      simp only [perform, hstore, hconsole]
      cases items.mapM (Expr.eval s.store) with
      | ok values =>
          simp only [Console.write_appending hc hs]
          generalize s.console.write _ = outcome
          obtain ⟨result, written⟩ := outcome
          cases result <;> rfl
      | error error => rfl
  | input name => exact absurd rfl (hinput name)
  | jump target => rfl
  | stop => rfl

/-- **One statement** that asks nothing. -/
theorem Statement.execute_onto (hc : c.Reliable) (hs : s.console.Reliable) {statement : Statement}
    (hasks : ¬statement.mayAsk) :
    statement.execute (s.onto c) = ((statement.execute s).1, (statement.execute s).2.onto c) := by
  have hstore : (s.onto c).store = s.store := rfl
  unfold execute
  rw [hstore]
  cases hselect : statement.select s.store with
  | ok a =>
      have hquiet := asks?_of_not_mayAsk hasks s.store
      exact Action.perform_onto hc hs (ne_input_of_select hquiet hselect)
  | error error => rfl

end Execution

/-! ## Runs -/

namespace Program

variable {p : Program} {c : Console} {state : State}

theorem explained_course (p : Program) (state : State) (n : Nat) :
    (p.course state n).Explained p := by
  rw [course_eq_advance]
  exact (Run.explained_ofLines (List.suffix_refl p.lines) state).advance n

/-- **A course** of a program that asks nothing. -/
theorem course_onto (hasks : p.AsksNothing) (hc : c.Reliable) (hstate : state.console.Reliable)
    (n : Nat) :
    p.course (state.onto c) n = (p.course state n).mapState (State.onto c) := by
  induction n with
  | zero => exact Run.ofLines_mapState (State.onto c) p.lines state
  | succ n ih =>
      have hreliable := p.reliable_course hstate n
      have hexplained := p.explained_course state n
      have hnext : p.course (state.onto c) (n + 1) =
          ((p.course state n).mapState (State.onto c)).step p := congrArg (Run.step p) ih
      have hfree : p.course state (n + 1) = (p.course state n).step p := rfl
      rw [hnext, hfree]
      cases hrun : p.course state n with
      | active line later last =>
          rw [hrun] at hreliable hexplained
          have hline : line ∈ p.lines := List.IsSuffix.subset hexplained (by simp)
          exact Run.step_mapState (Statement.execute_onto hc hreliable (hasks line hline))
      | ended last => rfl
      | failed line error last => rfl

/-- **A whole run.** What is on the channels before plays no part in what a program does that asks
nothing. -/
theorem run_onto (hasks : p.AsksNothing) (hc : c.Reliable) (hstate : state.console.Reliable)
    (budget : Budget) :
    p.run budget (state.onto c) =
      ((p.run budget state).1, (p.run budget state).2.onto c) := by
  have hlast := p.reliable_course hstate budget.steps
  have hflush : ((p.course state budget.steps).state.onto c).console.flush =
      (p.course state budget.steps).state.console.flush := by
    have honto : ((p.course state budget.steps).state.onto c).console.Reliable := hc.appending _
    rw [honto.flush_eq, hlast.flush_eq]
  rw [run_eq_course, run_eq_course, course_onto hasks hc hstate]
  exact Run.conclude_mapState hflush budget.limit

/-- The program run on channels of its own, with nothing to be read. -/
def alone (p : Program) (budget : Budget) : Except Error Unit × State :=
  p.run budget ⟨.empty, .ofInput []⟩

end Program

/-! ## Sessions -/

namespace Session

/-- What `RUN` does is what the program does alone. -/
theorem run_eq_alone {s : Session} (hasks : s.program.AsksNothing)
    (hreliable : s.state.console.Reliable) :
    s.run = ((s.program.alone s.budget).1,
      { s with state := (s.program.alone s.budget).2.onto s.state.console }) := by
  have hstart : { s.state with store := .empty } =
      State.onto s.state.console ⟨.empty, .ofInput []⟩ := by
    simp [State.onto, State.mapConsole, Console.appending, Console.ofInput]
  have halone : (Console.ofInput []).Reliable := ⟨rfl, fun _ => rfl⟩
  unfold run
  rw [hstart, Program.run_onto hasks hreliable halone]
  rfl

/-- **`RUN` does the same again.** Let a program without `INPUT` be run twice in a row, on a sink
that never fails, with any variables set before, any bytes written and any bytes to be read. Both
runs come to the same result, an error or a limit included, and set the same variables; they write
the same bytes, and leave the input as it is. So does every other session with that program and that
budget: neither the variables that were set in it, nor the bytes that were written or are to be
read, play a part. -/
theorem run_repeats (s : Session) (hasks : s.program.AsksNothing)
    (hreliable : s.state.console.Reliable) :
    s.run.2.run.1 = s.run.1 ∧
      s.run.2.run.2.state.store = s.run.2.state.store ∧
      ∃ bytes : Array UInt8,
        s.run.2.state.console = s.state.console.appending bytes ∧
          s.run.2.run.2.state.console = s.run.2.state.console.appending bytes ∧
          ∀ t : Session, t.program = s.program → t.budget = s.budget →
            t.state.console.Reliable →
              t.run = (s.run.1,
                { t with state := ⟨s.run.2.state.store, t.state.console.appending bytes⟩ }) := by
  have hany (t : Session) (hprogram : t.program = s.program) (hbudget : t.budget = s.budget)
      (hsink : t.state.console.Reliable) :
      t.run = (s.run.1, { t with
        state := ⟨s.run.2.state.store,
          t.state.console.appending (s.program.alone s.budget).2.console.output⟩ }) := by
    rw [run_eq_alone hasks hreliable, run_eq_alone (hprogram ▸ hasks) hsink, hprogram, hbudget]
    rfl
  have hfirst := hany s rfl rfl hreliable
  have hsink : s.run.2.state.console.Reliable := by
    rw [hfirst]
    exact hreliable.appending _
  have hsecond := hany s.run.2 (by rw [hfirst]) (by rw [hfirst]) hsink
  refine ⟨by rw [hsecond], by rw [hsecond], _, by rw [hfirst], by rw [hsecond], hany⟩

/-- A loop that counts up to two, and a line that fails. -/
def counting : Program :=
  (((Program.empty.insert
    ⟨10, "LET A = A + 1", .assign "A" (.binary (.variable "A") .add (.number 1))⟩).insert
    ⟨20, "PRINT A", .print [.variable "A"]⟩).insert
    ⟨30, "IF A < 2 THEN 10", .ifJump (.binary (.variable "A") .less (.number 2)) 10⟩).insert
    ⟨40, "PRINT A / 0", .print [.binary (.variable "A") .divide (.number 0)]⟩

/-- The loop in a session in which the counter has been left at seven. -/
def leftover : Session :=
  ⟨counting, ⟨⟨Table.empty.set "A" 7, .empty⟩,
    ⟨Console.encode "unread", (Console.encode "7\n").toArray, none, false⟩⟩, ⟨9, 0⟩⟩

/-- Each run counts from one again, and fails in the same line. A session that has just been started
does the same. -/
theorem run_repeats_leftover :
    leftover.program.AsksNothing ∧ leftover.state.console.Reliable ∧
      leftover.run.1 = .error (.runtime 40 .divisionByZero) ∧
      leftover.run.2.run.1 = .error (.runtime 40 .divisionByZero) ∧
      leftover.run.2.run.2.state.console =
        ⟨Console.encode "unread", (Console.encode "7\n1\n2\n1\n2\n").toArray, none, false⟩ ∧
      (leftover.run.2.run.2.state.store.get "A").print = "2" ∧
      { start (.ofInput []) ⟨9, 0⟩ with program := counting }.run.2.state.console =
        ⟨[], (Console.encode "1\n2\n").toArray, none, false⟩ := by
  have hasks : leftover.program.AsksNothing := by decide
  have hreliable : leftover.state.console.Reliable := ⟨rfl, fun _ => rfl⟩
  have hresult : leftover.run.1 = .error (.runtime 40 .divisionByZero) := by decide +kernel
  have hvalue : (leftover.run.2.state.store.get "A").print = "2" := by decide +kernel
  obtain ⟨hagain, hstore, bytes, hfirst, hsecond, hany⟩ := run_repeats leftover hasks hreliable
  have hbytes : bytes = (Console.encode "1\n2\n").toArray := by
    have houtput : leftover.run.2.state.console.output =
        leftover.state.console.output ++ (Console.encode "1\n2\n").toArray := by
      decide +kernel
    rw [hfirst] at houtput
    exact (Array.append_right_inj leftover.state.console.output).mp houtput
  have hfresh := hany { start (.ofInput []) ⟨9, 0⟩ with program := counting } rfl rfl
    ⟨rfl, fun _ => rfl⟩
  refine ⟨hasks, hreliable, hresult, hagain.trans hresult, ?_, ?_, ?_⟩
  · rw [hsecond, hfirst, hbytes]
    rfl
  · rw [hstore, hvalue]
  · rw [hfresh, hbytes]
    rfl

end Session

end LineBasic
