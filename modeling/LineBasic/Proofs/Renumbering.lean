import LineBasic.Proofs.Faults

/-!
# Programs with other line numbers

A run compares line numbers and looks for them, and does nothing else with them. So if all numbers
of a program, those of its lines and those that its statements name, are changed by a function that
keeps their order, the program runs as before: it reads and writes the same, leaves the same
variables, and fails where it failed, with the changed numbers in the error. A target that is not
stored counts too, since it must not become the number of a line.

The changed program may have any sources, since a run does not look at them. Its lines correspond to
the program's one by one; a run and the run of the changed program correspond if the lines that they
have ahead do, and that is kept by a step (`Run.step_of_moves`) and by a run (`Run.advance_of_moves`).
Taking the sources away is the case in which no number changes.

## Main definitions

* `Program.renumber`: a program with other numbers;
* `Error.renumber`: an error as the program with other numbers reports it.

## Main results

* `Program.run_of_moves`: runs of programs whose lines correspond;
* `Program.run_eq_of_bare`: a run does not depend on the sources;
* `Program.run_renumber`: the run of a program with other numbers.
-/

namespace LineBasic

/-! ## Renumbering -/

/-- The statement with other targets. -/
def Statement.renumber (f : LineNumber → LineNumber) : Statement → Statement
  | .ifJump condition target => .ifJump condition (f target)
  | .ifThen condition body => .ifThen condition (body.renumber f)
  | .jump target => .jump (f target)
  | statement => statement

/-- The line with another number and other targets. -/
def ProgramLine.renumber (f : LineNumber → LineNumber) (line : ProgramLine) : ProgramLine :=
  { line with number := f line.number, statement := line.statement.renumber f }

namespace Program

/-- The numbers that a program speaks of: those of its lines, and those that a statement names. -/
def mentions (p : Program) : List LineNumber :=
  p.numbers ++ p.lines.flatMap fun line => line.statement.targets

/-- A function that keeps the order of the numbers that a program speaks of. -/
def Increasing (p : Program) (f : LineNumber → LineNumber) : Prop :=
  ∀ a ∈ p.mentions, ∀ b ∈ p.mentions, a < b → f a < f b

theorem mem_mentions_of_number {p : Program} {number : LineNumber} (h : number ∈ p.numbers) :
    number ∈ p.mentions := List.mem_append_left _ h

theorem mem_mentions_of_target {p : Program} {line : ProgramLine} {target : LineNumber}
    (hline : line ∈ p.lines) (h : target ∈ line.statement.targets) : target ∈ p.mentions :=
  List.mem_append_right _ (List.mem_flatMap.mpr ⟨line, hline, h⟩)

variable {p : Program} {f : LineNumber → LineNumber}

/-- Numbers that the program speaks of stay different. -/
theorem Increasing.eq_of_eq (h : p.Increasing f) {a b : LineNumber} (ha : a ∈ p.mentions)
    (hb : b ∈ p.mentions) (heq : f a = f b) : a = b := by
  rcases Nat.lt_trichotomy a b with hlt | hsame | hgt
  · exact absurd heq (Nat.ne_of_lt (h a ha b hb hlt))
  · exact hsame
  · exact absurd heq.symm (Nat.ne_of_lt (h b hb a ha hgt))

/-- The numbers of the lines keep their order. -/
theorem Increasing.pairwise (h : p.Increasing f) :
    p.lines.Pairwise fun line other => f line.number < f other.number := by
  refine p.ascending.imp_of_mem fun hline hother hlt => ?_
  have hnumber {line : ProgramLine} (hmem : line ∈ p.lines) : line.number ∈ p.mentions :=
    mem_mentions_of_number (mem_numbers.mpr ⟨line, hmem, rfl⟩)
  exact h _ (hnumber hline) _ (hnumber hother) hlt

/-- The program with other numbers, in the same order. -/
def renumber (p : Program) (f : LineNumber → LineNumber) (h : p.Increasing f) : Program :=
  ⟨p.lines.map (ProgramLine.renumber f), List.pairwise_map.mpr h.pairwise⟩

end Program

/-- Where execution goes on, in the program with other numbers. -/
def Flow.renumber (f : LineNumber → LineNumber) : Flow → Flow
  | .jump target => .jump (f target)
  | flow => flow

/-- The error of a statement, in the program with other numbers. -/
def RuntimeError.renumber (f : LineNumber → LineNumber) : RuntimeError → RuntimeError
  | .undefinedLine target => .undefinedLine (f target)
  | error => error

/-- The error of a run, in the program with other numbers. -/
def Error.renumber (f : LineNumber → LineNumber) : Error → Error
  | .runtime line error => .runtime (f line) (error.renumber f)
  | .unfinished line => .unfinished (f line)
  | error => error

/-! ## Statements -/

/-- The action of a statement with other targets. -/
def Action.renumber (f : LineNumber → LineNumber) : Action → Action
  | .jump target => .jump (f target)
  | action => action

theorem Statement.select_renumber (f : LineNumber → LineNumber) (store : Store)
    (statement : Statement) :
    (statement.renumber f).select store = Action.renumber f <$> statement.select store := by
  induction statement with
  | ifJump condition target =>
      simp only [renumber, select, map_bind]
      refine bind_congr fun value => bind_congr fun holds => ?_
      cases holds <;> rfl
  | ifThen condition body ih =>
      simp only [renumber, select, map_bind]
      refine bind_congr fun value => bind_congr fun holds => ?_
      cases holds
      · rfl
      · exact ih
  | comment => rfl
  | assign name value => rfl
  | print items => rfl
  | input name => rfl
  | jump target => rfl
  | stop => rfl

/-- Only a jump looks at the target of an action. -/
theorem Action.perform_renumber (f : LineNumber → LineNumber) (a : Action) (s : State) :
    (a.renumber f).perform s = (Flow.renumber f <$> (a.perform s).1, (a.perform s).2) := by
  have hassign (s : State) (name : String) (value : Value) :
      s.assign name value =
        (Flow.renumber f <$> (s.assign name value).1, (s.assign name value).2) := by
    unfold State.assign
    cases s.store.set name value <;> rfl
  cases a with
  | pass => rfl
  | assign name value =>
      simp only [renumber, perform]
      cases value.eval s.store with
      | ok value => exact hassign s name value
      | error error => rfl
  | print items =>
      simp only [renumber, perform]
      cases items.mapM (Expr.eval s.store) with
      | ok values =>
          simp only
          generalize s.console.write _ = outcome
          obtain ⟨result, console⟩ := outcome
          cases result <;> rfl
      | error error => rfl
  | input name =>
      simp only [renumber, perform]
      generalize s.console.ask = outcome
      obtain ⟨result, console⟩ := outcome
      cases result with
      | ok line =>
          simp only
          cases Value.ofInput name line with
          | ok value => exact hassign _ name value
          | error error => rfl
      | error fault => rfl
  | jump target => rfl
  | stop => rfl

theorem Statement.execute_renumber (f : LineNumber → LineNumber) (statement : Statement)
    (s : State) :
    (statement.renumber f).execute s =
      (Flow.renumber f <$> (statement.execute s).1, (statement.execute s).2) := by
  unfold execute
  rw [select_renumber]
  cases statement.select s.store with
  | ok a => exact a.perform_renumber f s
  | error error => rfl

/-- The errors of statements are about no line. -/
theorem RuntimeError.renumber_of_isOfStatement {error : RuntimeError} (h : error.isOfStatement)
    (f : LineNumber → LineNumber) : error.renumber f = error := by
  cases error with
  | undefinedLine target => cases h
  | _ => rfl

/-! ## Lines that correspond -/

/-- A change of lines that moves their numbers and targets, whatever it does to their sources. -/
structure Moves (f : LineNumber → LineNumber) (g : ProgramLine → ProgramLine) : Prop where
  number (line : ProgramLine) : (g line).number = f line.number
  statement (line : ProgramLine) : (g line).statement = line.statement.renumber f

theorem moves_renumber (f : LineNumber → LineNumber) : Moves f (ProgramLine.renumber f) where
  number _ := rfl
  statement _ := rfl

/-- A run, in a program with changed lines. -/
def Run.change (f : LineNumber → LineNumber) (g : ProgramLine → ProgramLine) : Run → Run
  | .active line later state => .active (g line) (later.map g) state
  | .ended state => .ended state
  | .failed line error state => .failed (f line) (error.renumber f) state

section Simulation

variable {f : LineNumber → LineNumber} {g : ProgramLine → ProgramLine} {p q : Program}

/-- A number that the program speaks of is found where it was found before. -/
theorem Program.from?_of_moves (hg : Moves f g) (hf : p.Increasing f)
    (hq : q.lines = p.lines.map g) {target : LineNumber} (htarget : target ∈ p.mentions) :
    q.from? (f target) = (p.from? target).map fun found => (g found.1, found.2.map g) := by
  by_cases hmem : target ∈ p.numbers
  · obtain ⟨line, later, hsuffix, rfl⟩ := exists_suffix hmem
    have hmoved : (g line :: later.map g) <:+ q.lines := by
      rw [hq]
      exact hsuffix.map g
    rw [from?_of_suffix hsuffix, ← hg.number, from?_of_suffix hmoved]
    rfl
  · have hmoved : f target ∉ q.numbers := by
      intro hfound
      obtain ⟨other, hother, hnumber⟩ := mem_numbers.mp hfound
      rw [hq] at hother
      obtain ⟨line, hline, rfl⟩ := List.mem_map.mp hother
      have hstored : line.number ∈ p.numbers := mem_numbers.mpr ⟨line, hline, rfl⟩
      rw [hg.number] at hnumber
      rw [← hf.eq_of_eq (mem_mentions_of_number hstored) htarget hnumber] at hmem
      exact hmem hstored
    rw [from?_of_not_mem hmem, from?_of_not_mem hmoved]
    rfl

namespace Run

theorem ofLines_map (f : LineNumber → LineNumber) (g : ProgramLine → ProgramLine)
    (lines : List ProgramLine) (state : State) :
    ofLines (lines.map g) state = (ofLines lines state).change f g := by
  cases lines <;> rfl

/-- A step keeps the lines ahead corresponding. -/
theorem step_of_moves (hg : Moves f g) (hf : p.Increasing f) (hq : q.lines = p.lines.map g)
    {run : Run} (hrun : run.Explained p) :
    (run.change f g).step q = (run.step p).change f g := by
  cases run with
  | active line later state =>
      have hline : line ∈ p.lines := List.IsSuffix.subset hrun (by simp)
      simp only [change, step, hg.statement, Statement.execute_renumber]
      cases hexecute : line.statement.execute state with
      | mk result after =>
          cases result with
          | error error =>
              have herror := Statement.isOfStatement_of_execute hexecute
              have hsame := RuntimeError.renumber_of_isOfStatement herror f
              show failed (g line).number error after = failed _ (error.renumber f) after
              rw [hg.number, hsame]
          | ok flow =>
              cases flow with
              | onward => exact ofLines_map f g later after
              | halt => rfl
              | jump target =>
                  have htarget := Program.mem_mentions_of_target hline
                    (Statement.mem_targets_of_execute hexecute)
                  simp only [Functor.map, Except.map, Flow.renumber,
                    Program.from?_of_moves hg hf hq htarget]
                  cases p.from? target with
                  | some found => rfl
                  | none =>
                      show failed (g line).number _ after = failed _ _ after
                      rw [hg.number]
                      rfl
  | ended state => rfl
  | failed line error state => rfl

theorem advance_of_moves (hg : Moves f g) (hf : p.Increasing f) (hq : q.lines = p.lines.map g)
    {run : Run} (hrun : run.Explained p) (n : Nat) :
    (run.change f g).advance q n = (run.advance p n).change f g := by
  induction n generalizing run with
  | zero => rfl
  | succ n ih => rw [advance_succ, advance_succ, step_of_moves hg hf hq hrun, ih hrun.step]

theorem conclude_change (hg : Moves f g) (limit : Nat) (run : Run) :
    (run.change f g).conclude limit =
      ((run.conclude limit).1.mapError (Error.renumber f), (run.conclude limit).2) := by
  cases run with
  | active line later state =>
      simp only [change, conclude, hg.number]
      split <;> rfl
  | ended state =>
      simp only [change, conclude]
      cases state.console.flush <;> rfl
  | failed line error state => rfl

end Run

/-- **Programs whose lines correspond run the same**, up to the numbers in the error. -/
theorem Program.run_of_moves (hg : Moves f g) (hf : p.Increasing f) (hq : q.lines = p.lines.map g)
    (budget : Budget) (state : State) :
    q.run budget state =
      ((p.run budget state).1.mapError (Error.renumber f), (p.run budget state).2) := by
  have hstart := Run.explained_ofLines (List.suffix_refl p.lines) state
  unfold run
  rw [hq, Run.ofLines_map f g, Run.advance_of_moves hg hf hq hstart, Run.conclude_change hg]

end Simulation

/-! ## Without sources -/

/-- A line without its source. -/
def ProgramLine.bare (line : ProgramLine) : ProgramLine := { line with source := "" }

/-- A program without its sources. -/
def Program.bare (p : Program) : Program :=
  ⟨p.lines.map ProgramLine.bare, List.pairwise_map.mpr p.ascending⟩

theorem Statement.renumber_id (statement : Statement) : statement.renumber id = statement := by
  induction statement with
  | ifThen condition body ih => rw [renumber, ih]
  | _ => rfl

theorem RuntimeError.renumber_id (error : RuntimeError) : error.renumber id = error := by
  cases error <;> rfl

theorem Error.renumber_id (error : Error) : error.renumber id = error := by
  cases error with
  | runtime line error => rw [renumber, error.renumber_id, id_eq]
  | _ => rfl

/-- Taking the sources away changes no number. -/
theorem moves_bare : Moves id ProgramLine.bare where
  number _ := rfl
  statement line := line.statement.renumber_id.symm

namespace Program

theorem run_bare (p : Program) (budget : Budget) (state : State) :
    p.bare.run budget state = p.run budget state := by
  have hincreasing : p.Increasing id := fun _ _ _ _ hlt => hlt
  rw [run_of_moves moves_bare hincreasing rfl]
  generalize p.run budget state = outcome
  obtain ⟨result, last⟩ := outcome
  cases result with
  | ok _ => rfl
  | error error =>
      show (Except.error (error.renumber id), last) = _
      rw [error.renumber_id]

/-- Programs that differ in their sources alone run the same. -/
theorem run_eq_of_bare {p q : Program} (h : p.bare = q.bare) (budget : Budget) (state : State) :
    p.run budget state = q.run budget state := by
  rw [← run_bare p, h, run_bare q]

/-! ## Other numbers -/

/-- **Only the order of the numbers matters.** Let a function keep the order of all numbers that a
program speaks of, and let another program have the same lines with the numbers and targets that the
function gives them, whatever their sources. From every state and under every budget it comes to the
same state, and to the same result with the numbers in the error changed. -/
theorem run_renumber {p : Program} {f : LineNumber → LineNumber} (h : p.Increasing f) {q : Program}
    (hq : q.bare = (p.renumber f h).bare) (budget : Budget) (state : State) :
    q.run budget state =
      ((p.run budget state).1.mapError (Error.renumber f), (p.run budget state).2) := by
  rw [run_eq_of_bare hq]
  exact run_of_moves (moves_renumber f) h rfl budget state

/-- Lines that go forward, back, and from inside a condition to a line that is not stored. -/
def wandering : Program :=
  ((empty.insert ⟨10, "GOTO 30", .jump 30⟩).insert
    ⟨20, "IF \"A\" <> \"\" THEN IF \"A\" = \"A\" THEN 25",
      .ifThen (.binary (.text "A") .notEqual (.text ""))
        (.ifJump (.binary (.text "A") .equal (.text "A")) 25)⟩).insert
    ⟨30, "GOTO 20", .jump 20⟩

/-- The same lines with a fifth of each number. -/
def wanderingCloser : Program :=
  ((empty.insert ⟨2, "GOTO 6", .jump 6⟩).insert
    ⟨4, "if \"A\" <> \"\" then if \"A\" = \"A\" then 5",
      .ifThen (.binary (.text "A") .notEqual (.text ""))
        (.ifJump (.binary (.text "A") .equal (.text "A")) 5)⟩).insert
    ⟨6, "GOTO 4", .jump 4⟩

/-- A fifth of a number keeps the order of these, though not of all numbers. Both programs fail in
their second line, each for want of its own target. -/
theorem run_renumber_wandering :
    ∃ h : wandering.Increasing (· / 5),
      wanderingCloser.bare = (wandering.renumber (· / 5) h).bare ∧
        (wandering.run ⟨9, 0⟩ ⟨.empty, .ofInput []⟩).1 =
          .error (.runtime 20 (.undefinedLine 25)) ∧
        wanderingCloser.run ⟨9, 0⟩ ⟨.empty, .ofInput []⟩ =
          (.error (.runtime 4 (.undefinedLine 5)),
            (wandering.run ⟨9, 0⟩ ⟨.empty, .ofInput []⟩).2) := by
  have h : wandering.Increasing (· / 5) := by
    show ∀ a ∈ wandering.mentions, ∀ b ∈ wandering.mentions, a < b → a / 5 < b / 5
    decide
  have hsame : wanderingCloser.bare = (wandering.renumber (· / 5) h).bare := eq_of_lines rfl
  have hresult : (wandering.run ⟨9, 0⟩ ⟨.empty, .ofInput []⟩).1 =
      .error (.runtime 20 (.undefinedLine 25)) := rfl
  refine ⟨h, hsame, hresult, ?_⟩
  rw [run_renumber h hsame, hresult]
  rfl

end Program

end LineBasic
