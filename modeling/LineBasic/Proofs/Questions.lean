import LineBasic.Proofs.InputLines
import LineBasic.Proofs.Kinds
import LineBasic.Proofs.Requests

/-!
# Questions and the lines that answer them

Each time an `INPUT` statement is executed, at whatever depth of conditions, it asks a *question*,
and the question takes one line of the input: the first question the first line, the next one the
next, across loops, failing runs and whatever is done between them. A question that finds no line
takes none.

A step of a run asks one question, and takes one line, or it asks none, and leaves the input alone
(`Run.inTurn_step`). Being answered in turn is kept when one stretch of questions follows another
(`InTurn.append`), so it holds of a run, of all uses of a state and of all requests to a session. A
question that does not get through, because its prompt does not come out or reading fails at once,
takes no line and is not counted.

## Main definitions

* `Question`: an `INPUT` statement that is executed;
* `Question.Answered`: what a line of the input, or the lack of one, makes of a question;
* `InTurn`: the questions of a stretch, answered by the lines of its input;
* `Program.questions`, `State.questions`, `Session.questions`: all that is asked.

## Main results

* `Question.answered`, `Question.fails_of_not_prompted`: a question is answered by the first line,
  or fails with a channel;
* `Run.inTurn_step`: one step;
* `State.asked_in_turn`: everything that is asked.
-/

namespace LineBasic

/-! ## Statements that ask -/

/-- The variable that a statement asks for: its own, or that of the statement in it, if its condition
is a number other than zero. -/
def Statement.asks? (store : Store) : Statement → Option String
  | .input name => some name
  | .ifThen condition body =>
    match condition.eval store with
    | .ok (.number x) => if x != 0 then body.asks? store else none
    | _ => none
  | _ => none

/-- A statement asks for a variable if its conditions select that. -/
theorem Statement.asks?_eq_some_iff {statement : Statement} {store : Store} {name : String} :
    statement.asks? store = some name ↔ statement.select store = .ok (.input name) := by
  induction statement with
  | comment => simp [asks?, select]
  | assign target value => simp [asks?, select]
  | print items => simp [asks?, select]
  | input target => simp [asks?, select]
  | ifJump condition target =>
      unfold asks? select
      cases condition.eval store with
      | error error => simp [bind, Except.bind]
      | ok value =>
          cases value with
          | text content => simp [bind, Except.bind, Value.holds]
          | number x => by_cases h : x != 0 <;> simp [bind, Except.bind, Value.holds, h]
  | ifThen condition body ih =>
      unfold asks? select
      cases condition.eval store with
      | error error => simp [bind, Except.bind]
      | ok value =>
          cases value with
          | text content => simp [bind, Except.bind, Value.holds]
          | number x => by_cases h : x != 0 <;> simp [bind, Except.bind, Value.holds, h, ih]
  | jump target => simp [asks?, select]
  | stop => simp [asks?, select]

theorem Statement.execute_of_asks? {statement : Statement} {s : State} {name : String}
    (h : statement.asks? s.store = some name) :
    statement.execute s = (Action.input name).perform s := by
  rw [execute, asks?_eq_some_iff.mp h]

/-- The conditions of a statement that does not ask select something else. -/
theorem Statement.ne_input_of_select {statement : Statement} {store : Store} {a : Action}
    (h : statement.asks? store = none) (hselect : statement.select store = .ok a)
    (name : String) : a ≠ .input name := by
  rintro rfl
  have hasks := asks?_eq_some_iff.mpr hselect
  rw [h] at hasks
  cases hasks

/-- A statement that does not ask takes no input. -/
theorem Statement.input_execute {statement : Statement} {s : State}
    (h : statement.asks? s.store = none) :
    (statement.execute s).2.console.input = s.console.input := by
  unfold execute
  cases hselect : statement.select s.store with
  | error error => rfl
  | ok a => exact (Action.writes_perform (ne_input_of_select h hselect) s).input_eq

/-! ## Questions -/

/-- A run about to execute a line that asks for a variable. -/
structure Question where
  program : Program
  line : ProgramLine
  later : List ProgramLine
  state : State
  name : String
  asks : line.statement.asks? state.store = some name

namespace Question

/-- Whether the question gets through. -/
def prompted (q : Question) : Bool := q.state.console.prompts

/-- The run after the question. -/
def after (q : Question) : Run := (Run.active q.line q.later q.state).step q.program

/-- The question sets its variable to a value, and the run goes on with the next line. -/
def Stores (q : Question) (value : Value) : Prop :=
  ∃ store console, q.after = .ofLines q.later ⟨store, console⟩ ∧
    q.state.store.set q.name value = .ok store ∧ store.get q.name = value

/-- The question ends the run with an error in its line, and sets no variable. -/
def Fails (q : Question) (error : RuntimeError) : Prop :=
  ∃ console, q.after = .failed q.line.number error ⟨q.state.store, console⟩

/-- What is made of a question by the line of the input whose turn it is, or by there being no such
line. -/
inductive Answered (q : Question) : Option (List UInt8) → Prop
  | text {bytes : List UInt8} {line : String} :
      Kind.ofName q.name = .text → Console.decode? bytes = some line →
        q.Stores (.text (String.ofList (Text.dropLineEnd line.toList))) → Answered q (some bytes)
  | textEnded : Kind.ofName q.name = .text → q.Stores (.text "") → Answered q none
  | number {bytes : List UInt8} {line : String} {datum : Binary64.Datum} :
      Kind.ofName q.name = .number → Console.decode? bytes = some line →
        Binary64.Datum.read? (Text.trim (Text.dropLineEnd line.toList)) = some datum →
          q.Stores (.number datum.toFloat) → Answered q (some bytes)
  | noNumber {bytes : List UInt8} {line : String} :
      Kind.ofName q.name = .number → Console.decode? bytes = some line →
        Binary64.Datum.read? (Text.trim (Text.dropLineEnd line.toList)) = none →
          q.Fails (.inputFormat (String.ofList (Text.dropLineEnd line.toList))) →
            Answered q (some bytes)
  | numberEnded : Kind.ofName q.name = .number → q.Fails .endOfInput → Answered q none
  | garbled {bytes : List UInt8} :
      Console.decode? bytes = none → q.Fails (.channel .encoding) → Answered q (some bytes)

variable {q : Question} {value : Value} {error : RuntimeError}

/-! ## One question -/

theorem execute_eq (q : Question) :
    q.line.statement.execute q.state = (Action.input q.name).perform q.state :=
  Statement.execute_of_asks? q.asks

/-- The channels after the question are those after asking. -/
theorem console_after (q : Question) : q.after.state.console = q.state.console.ask.2 := by
  rw [after, Run.state_step, execute_eq, Action.console_input]

/-- A line that gives the variable a value sets it. -/
theorem stores_of_ask {line : Option String} {console : Console}
    (hask : q.state.console.ask = (.ok line, console))
    (hvalue : Value.ofInput q.name line = .ok value) : q.Stores value := by
  have hkind := Value.lands_ofInput q.name line
  rw [hvalue] at hkind
  obtain ⟨store, hset, hget⟩ := q.state.store.exists_set hkind
  refine ⟨store, console, ?_, hset, hget⟩
  simp only [after, Run.step, execute_eq, Action.perform, hask, hvalue, State.assign, hset]

/-- A line that does not is an error of the program. -/
theorem fails_of_ask {line : Option String} {console : Console}
    (hask : q.state.console.ask = (.ok line, console))
    (hvalue : Value.ofInput q.name line = .error error) : q.Fails error :=
  ⟨console, by simp only [after, Run.step, execute_eq, Action.perform, hask, hvalue]⟩

/-- So is a channel that fails. -/
theorem fails_of_channel {fault : ChannelFault} {console : Console}
    (hask : q.state.console.ask = (.error fault, console)) : q.Fails (.channel fault) :=
  ⟨console, by simp only [after, Run.step, execute_eq, Action.perform, hask]⟩

/-- **One question.** A question that gets through is answered by the first line there is. -/
theorem answered (h : q.prompted) :
    q.Answered (Console.inputLines q.state.console.input).head? := by
  have hresult := Console.result_ask h
  cases hask : q.state.console.ask with
  | mk result console =>
      rw [hask] at hresult
      dsimp only at hresult
      subst hresult
      generalize (Console.inputLines q.state.console.input).head? = given at hask
      cases given with
      | none =>
          cases hkind : Kind.ofName q.name with
          | text => exact .textEnded hkind (stores_of_ask hask (by simp [Value.ofInput, hkind]))
          | number => exact .numberEnded hkind (fails_of_ask hask (by simp [Value.ofInput, hkind]))
      | some bytes =>
          cases hdecode : Console.decode? bytes with
          | none =>
              rw [Console.reply, hdecode] at hask
              exact .garbled hdecode (fails_of_channel hask)
          | some line =>
              rw [Console.reply, hdecode] at hask
              cases hkind : Kind.ofName q.name with
              | text =>
                  exact .text hkind hdecode (stores_of_ask hask (by simp [Value.ofInput, hkind]))
              | number =>
                  cases hread : Binary64.Datum.read? (Text.trim (Text.dropLineEnd line.toList)) with
                  | some datum =>
                      exact .number hkind hdecode hread
                        (stores_of_ask hask (by simp [Value.ofInput, hkind, hread]))
                  | none =>
                      exact .noNumber hkind hdecode hread
                        (fails_of_ask hask (by simp [Value.ofInput, hkind, hread]))

/-- A question that does not get through fails with a channel. -/
theorem fails_of_not_prompted (h : ¬q.prompted) : ∃ fault, q.Fails (.channel fault) := by
  obtain ⟨fault, hask⟩ := Console.ask_of_not_prompts h
  exact ⟨fault, fails_of_channel hask⟩

/-- A question goes one way only. -/
theorem Fails.eq_of_fails {other : RuntimeError} (h : q.Fails error) (h' : q.Fails other) :
    error = other := by
  obtain ⟨console, hafter⟩ := h
  obtain ⟨console', hafter'⟩ := h'
  rw [hafter] at hafter'
  injection hafter'

theorem Stores.not_fails (h : q.Stores value) : ¬q.Fails error := by
  obtain ⟨store, console, hafter, -, -⟩ := h
  rintro ⟨console', hafter'⟩
  rw [hafter] at hafter'
  unfold Run.ofLines at hafter'
  split at hafter'
  · cases hafter'
  · cases hafter'

/-- The input has ended for a question if a number is asked for and there is no line for it. -/
theorem Answered.endOfInput_iff {given : Option (List UInt8)} (h : q.Answered given) :
    q.Fails .endOfInput ↔ Kind.ofName q.name = .number ∧ given = none := by
  constructor
  · intro hended
    cases h with
    | text _ _ hstores => exact absurd hended hstores.not_fails
    | textEnded _ hstores => exact absurd hended hstores.not_fails
    | number _ _ _ hstores => exact absurd hended hstores.not_fails
    | noNumber _ _ _ hfails => cases hended.eq_of_fails hfails
    | numberEnded hkind _ => exact ⟨hkind, rfl⟩
    | garbled _ hfails => cases hended.eq_of_fails hfails
  · rintro ⟨hkind, rfl⟩
    cases h with
    | textEnded hname _ =>
        rw [hkind] at hname
        cases hname
    | numberEnded _ hfails => exact hfails

end Question

/-! ## Questions in turn -/

/-- The questions of a stretch are answered by the lines of the input in turn, and what is left of the
input begins after these lines. If there are more questions than lines, nothing is left. -/
structure InTurn (input : List UInt8) (questions : List Question) (rest : List UInt8) : Prop where
  /-- The lines that were taken, and the bytes that are left, are the input. -/
  taken : ((Console.inputLines input).take questions.length).flatten ++ rest = input
  left : Console.inputLines rest = (Console.inputLines input).drop questions.length
  answered : ∀ (i : Nat) (q : Question), questions[i]? = some q →
    q.Answered (Console.inputLines input)[i]?

namespace InTurn

variable {input middle rest : List UInt8} {questions later : List Question}

/-- The lines that are left say which bytes are left. -/
theorem of_left
    (hleft : Console.inputLines rest = (Console.inputLines input).drop questions.length)
    (hanswered : ∀ (i : Nat) (q : Question), questions[i]? = some q →
      q.Answered (Console.inputLines input)[i]?) :
    InTurn input questions rest where
  taken := by
    rw [← Console.flatten_inputLines rest, hleft, ← List.flatten_append, List.take_append_drop,
      Console.flatten_inputLines]
  left := hleft
  answered := hanswered

theorem nil : InTurn input [] input := of_left rfl fun i q h => by cases h

theorem single {q : Question} (hanswered : q.Answered (Console.inputLines input).head?)
    (hleft : Console.inputLines rest = (Console.inputLines input).tail) :
    InTurn input [q] rest := by
  refine of_left (by rw [hleft, List.length_singleton, List.drop_one]) fun i asked h => ?_
  cases i with
  | zero =>
      cases h
      rwa [← List.head?_eq_getElem?]
  | succ i => cases h

/-- One stretch after another is a stretch. -/
theorem append (h : InTurn input questions middle) (h' : InTurn middle later rest) :
    InTurn input (questions ++ later) rest := by
  refine of_left ?_ fun i q hq => ?_
  · rw [h'.left, h.left, List.drop_drop, List.length_append]
  · rw [List.getElem?_append] at hq
    split at hq
    · exact h.answered i q hq
    · next hge =>
      have hline := h'.answered _ q hq
      rw [h.left, List.getElem?_drop] at hline
      rwa [Nat.add_sub_cancel' (Nat.not_lt.mp hge)] at hline

end InTurn

/-! ## Everything that is asked -/

/-- The question that a run is about to ask. -/
def Run.question? (p : Program) : Run → Option Question
  | .active line later state =>
    match h : line.statement.asks? state.store with
    | some name => some ⟨p, line, later, state, name, h⟩
    | none => none
  | .ended _ | .failed _ _ _ => none

/-- The questions that a run asks in up to `n` steps. -/
def Run.questions (p : Program) : Nat → Run → List Question
  | 0, _ => []
  | n + 1, run => (run.question? p).toList ++ (run.step p).questions p n

/-- The questions that a program asks. -/
def Program.questions (p : Program) (budget : Budget) (state : State) : List Question :=
  (Run.ofLines p.lines state).questions p budget.steps

/-- The questions that are asked by a use of a state. -/
def Use.questions (s : State) : Use → List Question
  | .run p budget => p.questions budget s
  | .reset | .list _ => []

/-- The questions that are asked by some uses of a state. -/
def State.questions (s : State) : List Use → List Question
  | [] => []
  | use :: later => use.questions s ++ (s.use use).questions later

/-- The questions that a session asks while it answers some requests. -/
def Session.questions (s : Session) (requests : List Request) : List Question :=
  s.state.questions (s.usesAll requests)

namespace Run

variable {p : Program} {run : Run} {q : Question}

theorem eq_of_question? (h : run.question? p = some q) :
    p = q.program ∧ run = .active q.line q.later q.state := by
  cases run with
  | active line later state =>
      dsimp only [question?] at h
      split at h
      · injection h with h
        subst h
        exact ⟨rfl, rfl⟩
      · cases h
  | ended state => cases h
  | failed line error state => cases h

theorem asks?_of_question? {line : ProgramLine} {later : List ProgramLine} {state : State}
    (h : (active line later state).question? p = none) :
    line.statement.asks? state.store = none := by
  dsimp only [question?] at h
  split at h
  · cases h
  · next hasks => exact hasks

/-- A step that asks nothing takes no input. -/
theorem input_step (h : run.question? p = none) :
    (run.step p).state.console.input = run.state.console.input := by
  cases run with
  | active line later state =>
      rw [state_step]
      exact Statement.input_execute (asks?_of_question? h)
  | ended state => rfl
  | failed line error state => rfl

/-- **One step.** A step asks a question and takes its line, or takes nothing. -/
theorem inTurn_step (p : Program) (run : Run) :
    InTurn run.state.console.input ((run.question? p).toList.filter Question.prompted)
      (run.step p).state.console.input := by
  cases hquestion : run.question? p with
  | none =>
      rw [input_step hquestion]
      exact .nil
  | some q =>
      obtain ⟨rfl, rfl⟩ := eq_of_question? hquestion
      show InTurn q.state.console.input ([q].filter Question.prompted) q.after.state.console.input
      rw [q.console_after]
      by_cases h : q.prompted
      · rw [List.filter_cons_of_pos h]
        exact .single (q.answered h) (Console.inputLines_ask h)
      · rw [List.filter_cons_of_neg h, Console.input_ask h]
        exact .nil

theorem inTurn_advance (p : Program) (n : Nat) (run : Run) :
    InTurn run.state.console.input ((run.questions p n).filter Question.prompted)
      (run.advance p n).state.console.input := by
  induction n generalizing run with
  | zero => exact .nil
  | succ n ih =>
      rw [advance_succ, questions, List.filter_append]
      exact (inTurn_step p run).append (ih (run.step p))

theorem reaches_of_mem_questions {n : Nat} (h : q ∈ run.questions p n) :
    run.state.console.Reaches q.state.console := by
  induction n generalizing run with
  | zero => cases h
  | succ n ih =>
      rw [questions, List.mem_append, Option.mem_toList] at h
      rcases h with hfirst | hlater
      · obtain ⟨-, rfl⟩ := eq_of_question? hfirst
        exact .refl
      · exact (reaches_step p run).trans (ih hlater)

end Run

theorem Program.inTurn_run (p : Program) (budget : Budget) (state : State) :
    InTurn state.console.input ((p.questions budget state).filter Question.prompted)
      (p.run budget state).2.console.input := by
  have hrun := Run.inTurn_advance p budget.steps (Run.ofLines p.lines state)
  rwa [Run.state_ofLines, ← state_run] at hrun

namespace State

theorem inTurn_use (s : State) (use : Use) :
    InTurn s.console.input ((use.questions s).filter Question.prompted)
      (s.use use).console.input := by
  cases use with
  | run p budget => exact p.inTurn_run budget s
  | reset => exact .nil
  | list p =>
      unfold State.use
      dsimp only
      rw [(p.writes_list s.console).input_eq]
      exact .nil

theorem inTurn_useAll (s : State) (uses : List Use) :
    InTurn s.console.input ((s.questions uses).filter Question.prompted)
      (s.useAll uses).console.input := by
  induction uses generalizing s with
  | nil => exact .nil
  | cons use later ih =>
      rw [useAll_cons, questions, List.filter_append]
      exact (s.inTurn_use use).append (ih (s.use use))

theorem reaches_of_mem_questions {s : State} {uses : List Use} {q : Question}
    (h : q ∈ s.questions uses) : s.console.Reaches q.state.console := by
  induction uses generalizing s with
  | nil => cases h
  | cons use later ih =>
      rw [questions, List.mem_append] at h
      rcases h with hfirst | hlater
      · cases use with
        | run p budget =>
            have hreaches := Run.reaches_of_mem_questions hfirst
            rwa [Run.state_ofLines] at hreaches
        | reset => cases hfirst
        | list p => cases hfirst
      · exact (s.reaches_use use).trans (ih hlater)

/-- **Input lines are answers in turn.** Let a state be used in any way: programs are run, to their
ends or to any error, variables are forgotten, programs are listed. The questions that get through,
in the order in which they are asked, are answered by the lines of the input in turn, and the rest of
the lines is left. On a sink that never fails these are all questions there are, if reading fails at
no point. A question finds that the input has ended if it asks for a number and has no line. The same
is true of all that a session is asked for. -/
theorem asked_in_turn :
    (∀ (state : State) (uses : List Use),
      InTurn state.console.input ((state.questions uses).filter Question.prompted)
        (state.useAll uses).console.input) ∧
      (∀ (state : State) (uses : List Use), state.console.Reliable → state.console.Readable →
        (state.questions uses).filter Question.prompted = state.questions uses) ∧
      (∀ (q : Question) (given : Option (List UInt8)), q.Answered given →
        (q.Fails .endOfInput ↔ Kind.ofName q.name = .number ∧ given = none)) ∧
      ∀ (session : Session) (requests : List Request),
        InTurn session.state.console.input
          ((session.questions requests).filter Question.prompted)
          (session.serveAll requests).state.console.input := by
  refine ⟨inTurn_useAll, fun state uses h hread => ?_, fun q given => Question.Answered.endOfInput_iff,
    fun session requests => ?_⟩
  · refine List.filter_eq_self.mpr fun q hq => ?_
    have hreaches := reaches_of_mem_questions hq
    exact (hreaches.reliable h).prompts (hreaches.readable hread)
  · rw [Session.state_serveAll]
    exact session.state.inTurn_useAll _

/-- Five lines: with carriage returns, with blanks around a number, with no number, not UTF-8, and
without a line feed. -/
def answers : List UInt8 := Console.encode "a\r\r\n\t 21 \r\n x\n" ++ [255, 10] ++ Console.encode "é"

/-- A session with no program, and the five lines to read. -/
def interviewer : Session := ⟨.empty, ⟨.empty, .ofInput answers⟩, ⟨9, 0⟩⟩

/-- Three runs of a program, with a listing and an edit between them, and a run of another one. -/
def interview : List Request :=
  [.load "10 IF 1 THEN INPUT A$\n15 IF 0 THEN INPUT B$\n20 IF 1 THEN IF 2 THEN INPUT N\n30 INPUT M",
    .run, .list, .enter "run", .enter "30 END", .run, .enter "new", .enter "10 INPUT B$", .run]

/-- The first run fails at the third line, which is no number, and the second run at the fourth. The
third run takes the last line, and fails at its next question. The last run asks for a text. -/
theorem asked_in_turn_interview :
    interviewer.state.console.Reliable ∧ interviewer.state.console.Readable ∧
      (interviewer.questions interview).map (fun q => (q.line.number, q.name)) =
        [(10, "A$"), (20, "N"), (30, "M"), (10, "A$"), (10, "A$"), (20, "N"), (10, "B$")] ∧
      Console.inputLines answers =
        [Console.encode "a\r\r\n", Console.encode "\t 21 \r\n", Console.encode " x\n", [255, 10],
          Console.encode "é"] ∧
      (∀ (i : Nat) (q : Question), (interviewer.questions interview)[i]? = some q →
        q.Answered (Console.inputLines answers)[i]?) ∧
      (∃ q, (interviewer.questions interview)[5]? = some q ∧ q.Fails .endOfInput) ∧
      (interviewer.serveAll interview).state.console.input = [] := by
  have hreliable : interviewer.state.console.Reliable := ⟨rfl, fun _ => rfl⟩
  have hreadable : interviewer.state.console.Readable := fun _ => rfl
  have hnames : (interviewer.questions interview).map (fun q => (q.line.number, q.name)) =
      [(10, "A$"), (20, "N"), (30, "M"), (10, "A$"), (10, "A$"), (20, "N"), (10, "B$")] := by
    decide +kernel
  have hlines : Console.inputLines answers =
      [Console.encode "a\r\r\n", Console.encode "\t 21 \r\n", Console.encode " x\n", [255, 10],
        Console.encode "é"] := by
    decide +kernel
  obtain ⟨-, hall, hended, hsession⟩ := asked_in_turn
  have hprompted : (interviewer.questions interview).filter Question.prompted =
      interviewer.questions interview := hall interviewer.state _ hreliable hreadable
  have hturn : InTurn answers ((interviewer.questions interview).filter Question.prompted)
      (interviewer.serveAll interview).state.console.input := hsession interviewer interview
  rw [hprompted] at hturn
  refine ⟨hreliable, hreadable, hnames, hlines, hturn.answered, ?_, ?_⟩
  · have hsixth := congrArg (·[5]?) hnames
    simp only [List.getElem?_map, Option.map_eq_some_iff, List.getElem?_cons_succ,
      List.getElem?_cons_zero] at hsixth
    obtain ⟨q, hq, hname⟩ := hsixth
    injection hname with _ hname
    refine ⟨q, hq, (hended q _ (hturn.answered 5 q hq)).mpr ⟨?_, ?_⟩⟩
    · rw [hname]
      rfl
    · rw [hlines]
      rfl
  · have hleft := hturn.taken
    rw [List.take_of_length_le, Console.flatten_inputLines] at hleft
    · exact List.append_right_eq_self.mp hleft
    · have hasked := congrArg List.length hnames
      rw [List.length_map] at hasked
      rw [hasked, hlines]
      decide

end State

end LineBasic
