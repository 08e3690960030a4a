import LineBasic.Proofs.Run

/-!
# The channels only go forward

Whatever a program does, it does to its channels by writing texts and reading lines, one after
another (`Console.Reaches`). A write appends, also when it fails half way; a read takes a line off
the front, also when the line is not UTF-8, or takes nothing. So bytes once written stay written and
bytes once read are gone: each state of a run has the output of every earlier state in front of its
own, and its input is an end of theirs. And the channels stay the ones that they were, with their
faults: a sink that fails at no point does not fail, however far the output has come.

One step does no more than one statement (`Run.state_step`), and a run is steps.

## Main definitions

* `Console.Reaches`: the consoles that a program can come to;
* `Console.Writes`: those that it can come to without reading;
* `Console.Precedes`: a console whose output goes on, and whose input is used up;
* `Console.Reliable`: a console whose sink never fails;
* `Console.Readable`: a console at which only what is read can make reading fail;
* `Console.prompts`: whether a question gets through.

## Main results

* `Action.writes_perform`: only `INPUT` reads;
* `Statement.reaches_execute`, `Run.reaches_advance`: what a program can do to its channels;
* `Run.precedes_advance`: channels go forward, however far a run is followed.
-/

namespace LineBasic

namespace Console

/-- The consoles that are come to by writing and reading. -/
inductive Reaches (c : Console) : Console → Prop
  | refl : Reaches c c
  | write {d : Console} (text : String) : Reaches c d → Reaches c (d.write text).2
  | read {d : Console} : Reaches c d → Reaches c d.readLine.2

/-- The consoles that are come to by writing alone. -/
inductive Writes (c : Console) : Console → Prop
  | refl : Writes c c
  | write {d : Console} (text : String) : Writes c d → Writes c (d.write text).2

/-- Nothing that was written is taken back, and nothing that was read is read again. -/
structure Precedes (c later : Console) : Prop where
  output : c.output.toList <+: later.output.toList
  input : later.input <:+ c.input

/-- The sink takes every byte, and flushes at every point. -/
structure Reliable (c : Console) : Prop where
  unbounded : c.capacity = none
  flushes : ∀ output, c.faults.flush output = none

/-- Reading fails at no point. It still does if a line is not UTF-8. -/
def Readable (c : Console) : Prop := ∀ input, c.faults.read input = none

variable {c d e : Console}

/-! ## One text and one line -/

/-- Writing appends to the output, and changes nothing else. -/
theorem exists_write (c : Console) (text : String) :
    ∃ bytes : List UInt8, (c.write text).2 = { c with output := c.output ++ bytes } := by
  unfold write
  dsimp only
  split
  · exact ⟨_, rfl⟩
  · split
    · exact ⟨_, rfl⟩
    · exact ⟨_, rfl⟩

/-- What is behind the first line is an end of the bytes. -/
theorem splitLine_suffix (bytes : List UInt8) : (splitLine bytes).2 <:+ bytes := by
  unfold splitLine
  split
  · exact List.nil_suffix
  · next lineFeed rest hrest =>
    have hsuffix : (lineFeed :: rest) <:+ bytes := hrest ▸ List.dropWhile_suffix _
    exact (List.suffix_cons lineFeed rest).trans hsuffix

/-- Reading that fails at a point takes nothing. -/
theorem readLine_of_fault {fault : ChannelFault} (h : c.faults.read c.input = some fault) :
    c.readLine = (.error fault, c) := by
  unfold readLine
  rw [h]

/-- Reading takes input away, and changes nothing else. -/
theorem exists_readLine (c : Console) :
    ∃ rest, rest <:+ c.input ∧ c.readLine.2 = { c with input := rest } := by
  unfold readLine
  dsimp only
  split
  · exact ⟨c.input, List.suffix_refl _, rfl⟩
  · split
    · exact ⟨c.input, List.suffix_refl _, rfl⟩
    · split
      · exact ⟨_, splitLine_suffix c.input, rfl⟩
      · exact ⟨_, splitLine_suffix c.input, rfl⟩

/-! ## Many of them -/

theorem Reaches.trans (h : c.Reaches d) (h' : d.Reaches e) : c.Reaches e := by
  induction h' with
  | refl => exact h
  | write text _ ih => exact .write text ih
  | read _ ih => exact .read ih

/-- Channels go forward by writing and reading. -/
theorem Reaches.precedes (h : c.Reaches d) : c.Precedes d := by
  induction h with
  | refl => exact ⟨List.prefix_refl _, List.suffix_refl _⟩
  | @write d text _ ih =>
      obtain ⟨bytes, hwritten⟩ := d.exists_write text
      rw [hwritten]
      refine ⟨ih.output.trans ?_, ih.input⟩
      simp
  | @read d _ ih =>
      obtain ⟨rest, hrest, hread⟩ := d.exists_readLine
      rw [hread]
      exact ⟨ih.output, hrest.trans ih.input⟩

/-- The channels stay the ones that they were. -/
theorem Reaches.same_channels (h : c.Reaches d) : d.capacity = c.capacity ∧ d.faults = c.faults := by
  induction h with
  | refl => exact ⟨rfl, rfl⟩
  | @write d text _ ih =>
      obtain ⟨bytes, hwritten⟩ := d.exists_write text
      rw [hwritten]
      exact ih
  | @read d _ ih =>
      obtain ⟨rest, -, hread⟩ := d.exists_readLine
      rw [hread]
      exact ih

/-- The sink stays reliable. -/
theorem Reaches.reliable (h : c.Reaches d) (hc : c.Reliable) : d.Reliable := by
  obtain ⟨hcapacity, hfaults⟩ := h.same_channels
  exact ⟨by rw [hcapacity, hc.unbounded], fun output => by rw [hfaults, hc.flushes]⟩

theorem Reaches.readable (h : c.Reaches d) (hc : c.Readable) : d.Readable := by
  intro input
  rw [h.same_channels.2, hc]

theorem Writes.trans (h : c.Writes d) (h' : d.Writes e) : c.Writes e := by
  induction h' with
  | refl => exact h
  | write text _ ih => exact .write text ih

theorem Writes.reaches (h : c.Writes d) : c.Reaches d := by
  induction h with
  | refl => exact .refl
  | write text _ ih => exact .write text ih

theorem writes_write (c : Console) (text : String) : c.Writes (c.write text).2 :=
  .write text .refl

theorem input_write (c : Console) (text : String) : (c.write text).2.input = c.input := by
  obtain ⟨bytes, hwritten⟩ := c.exists_write text
  rw [hwritten]

/-- Writing does not move the point of reading. -/
theorem read_write (c : Console) (text : String) :
    (c.write text).2.faults.read (c.write text).2.input = c.faults.read c.input := by
  obtain ⟨bytes, hwritten⟩ := c.exists_write text
  rw [hwritten]

/-- Writing takes no input. -/
theorem Writes.input_eq (h : c.Writes d) : d.input = c.input := by
  induction h with
  | refl => rfl
  | @write d text _ ih => rw [input_write, ih]

/-- Writing to a reliable sink is a success. -/
theorem Reliable.exists_write (h : c.Reliable) (text : String) :
    ∃ d, c.write text = (.ok (), d) ∧ d.Reliable := by
  refine ⟨(c.write text).2, ?_, (c.writes_write text).reaches.reliable h⟩
  simp [write, h.unbounded]

theorem write_of_unbounded (h : c.capacity = none) (text : String) :
    c.write text = (.ok (), { c with output := c.output ++ encode text }) := by
  simp [write, h]

theorem Reliable.flush_eq (h : c.Reliable) : c.flush = .ok () := by
  simp [flush, h.flushes]

/-! ## Asking -/

/-- Whether the prompt comes out. -/
def announces (c : Console) : Bool :=
  (c.write "? ").1.isOk && (c.write "? ").2.flush.isOk

/-- Whether a question gets through: its prompt comes out, and reading does not fail there. -/
def prompts (c : Console) : Bool := c.announces && (c.faults.read c.input).isNone

theorem prompts_iff : c.prompts ↔ c.announces ∧ c.faults.read c.input = none := by
  simp [prompts]

/-- A sink that flushes behind one prompt, and not behind the next. -/
example :
    let faults : Faults :=
      ⟨fun output => if output.size ≤ 2 then none else some .flush, fun _ => none⟩
    let c : Console := ⟨encode "a\nb\n", #[], none, faults⟩
    c.prompts ∧ ¬c.ask.2.prompts := by
  decide +kernel

/-- A prompt that comes out is written whole and flushed. -/
theorem announces_iff : c.announces ↔ ∃ d, c.write "? " = (.ok (), d) ∧ d.flush = .ok () := by
  unfold announces
  generalize c.write "? " = outcome
  obtain ⟨result, written⟩ := outcome
  cases result with
  | error fault => simp [Except.isOk, Except.toBool]
  | ok _ => cases hflush : written.flush <;> simp [hflush, Except.isOk, Except.toBool]

theorem Reliable.announces (h : c.Reliable) : c.announces := by
  obtain ⟨written, hwrite, hwritten⟩ := h.exists_write "? "
  exact announces_iff.mpr ⟨written, hwrite, hwritten.flush_eq⟩

theorem Reliable.prompts (h : c.Reliable) (hread : c.Readable) : c.prompts :=
  prompts_iff.mpr ⟨h.announces, hread c.input⟩

/-- Behind its prompt, asking is reading. -/
theorem ask_of_announces (h : c.announces) : c.ask = (c.write "? ").2.readLine := by
  obtain ⟨written, hwrite, hflush⟩ := announces_iff.mp h
  simp only [ask, hwrite, hflush]

/-- Without its prompt, asking fails and does not read. -/
theorem ask_of_not_announces (h : ¬c.announces) :
    ∃ fault, c.ask = (.error fault, (c.write "? ").2) := by
  cases hwrite : c.write "? " with
  | mk result written =>
      cases result with
      | error fault => exact ⟨fault, by simp only [ask, hwrite]⟩
      | ok _ =>
          cases hflush : written.flush with
          | error fault => exact ⟨fault, by simp only [ask, hwrite, hflush]⟩
          | ok _ => exact absurd (announces_iff.mpr ⟨written, hwrite, hflush⟩) h

/-- A question that does not get through fails, and leaves what was written of its prompt. -/
theorem ask_of_not_prompts (h : ¬c.prompts) :
    ∃ fault, c.ask = (.error fault, (c.write "? ").2) := by
  by_cases hannounces : c.announces
  · cases hread : c.faults.read c.input with
    | none => exact absurd (prompts_iff.mpr ⟨hannounces, hread⟩) h
    | some fault =>
        rw [← c.read_write "? "] at hread
        exact ⟨fault, by rw [ask_of_announces hannounces, readLine_of_fault hread]⟩
  · exact ask_of_not_announces hannounces

theorem reaches_ask (c : Console) : c.Reaches c.ask.2 := by
  have hprompt := (c.writes_write "? ").reaches
  by_cases h : c.announces
  · rw [ask_of_announces h]
    exact hprompt.read
  · obtain ⟨fault, hask⟩ := ask_of_not_announces h
    rwa [hask]

end Console

/-! ## Statements -/

/-- Setting a variable does not touch the channels. -/
theorem State.console_assign (s : State) (name : String) (value : Value) :
    (s.assign name value).2.console = s.console := by
  unfold assign
  cases s.store.set name value <;> rfl

/-- The state with its console changed. -/
def State.mapConsole (f : Console → Console) (s : State) : State :=
  { s with console := f s.console }

/-- Setting a variable does not notice the channels either. -/
theorem State.assign_mapConsole (f : Console → Console) (s : State) (name : String)
    (value : Value) :
    (s.mapConsole f).assign name value =
      ((s.assign name value).1, (s.assign name value).2.mapConsole f) := by
  have hstore : (s.mapConsole f).store = s.store := rfl
  unfold assign
  rw [hstore]
  cases s.store.set name value <;> rfl

/-- No action but asking reads. -/
theorem Action.writes_perform {a : Action} (h : ∀ name, a ≠ .input name) (s : State) :
    s.console.Writes (a.perform s).2.console := by
  cases a with
  | pass => exact .refl
  | assign name value =>
      unfold perform
      dsimp only
      split
      · rw [State.console_assign]
        exact .refl
      · exact .refl
  | print items =>
      unfold perform
      dsimp only
      split
      · next values _ =>
        have hwrite :=
          s.console.writes_write (" ".intercalate (values.map Value.print) ++ "\n")
        split
        · next hwritten => rwa [hwritten] at hwrite
        · next hwritten => rwa [hwritten] at hwrite
      · exact .refl
  | input name => exact absurd rfl (h name)
  | jump target => exact .refl
  | stop => exact .refl

/-- What becomes of an answer does not touch the channels. -/
theorem Action.console_input (name : String) (s : State) :
    ((Action.input name).perform s).2.console = s.console.ask.2 := by
  unfold perform
  dsimp only
  split
  · next hasked =>
    rw [hasked]
    split
    · rw [State.console_assign]
    · rfl
  · next hasked => rw [hasked]

theorem Action.reaches_perform (a : Action) (s : State) :
    s.console.Reaches (a.perform s).2.console := by
  by_cases hinput : ∃ name, a = .input name
  · obtain ⟨name, rfl⟩ := hinput
    rw [console_input]
    exact s.console.reaches_ask
  · exact (writes_perform (fun name h => hinput ⟨name, h⟩) s).reaches

theorem Statement.reaches_execute (statement : Statement) (s : State) :
    s.console.Reaches (statement.execute s).2.console := by
  unfold execute
  split
  · next action _ => exact action.reaches_perform s
  · exact .refl

/-! ## Runs -/

namespace Run

theorem state_ofLines (lines : List ProgramLine) (state : State) :
    (ofLines lines state).state = state := by
  cases lines <;> rfl

/-- After a step the state is the one that the line's statement leaves. -/
theorem state_step (p : Program) (line : ProgramLine) (later : List ProgramLine) (state : State) :
    ((active line later state).step p).state = (line.statement.execute state).2 := by
  have hnext := next_step p line later state
  generalize (active line later state).step p = next at hnext
  cases hnext with
  | onward hexecute => rw [hexecute, state_ofLines]
  | halted hexecute => rw [hexecute]; rfl
  | jumped hexecute _ => rw [hexecute]; rfl
  | undefined hexecute _ => rw [hexecute]; rfl
  | faulted hexecute => rw [hexecute]; rfl

/-- Concluding a run does not change its state. -/
theorem state_conclude (limit : Nat) (run : Run) : (run.conclude limit).2 = run.state := by
  cases run with
  | active line later state =>
      simp only [conclude]
      split <;> rfl
  | ended state =>
      simp only [conclude]
      cases state.console.flush <;> rfl
  | failed line error state => rfl

theorem reaches_step (p : Program) (run : Run) :
    run.state.console.Reaches (run.step p).state.console := by
  cases run with
  | active line later state =>
      rw [state_step]
      exact line.statement.reaches_execute state
  | ended state => exact .refl
  | failed line error state => exact .refl

theorem reaches_advance (p : Program) (n : Nat) (run : Run) :
    run.state.console.Reaches (run.advance p n).state.console := by
  induction n generalizing run with
  | zero => exact .refl
  | succ n ih =>
      rw [advance_succ]
      exact (reaches_step p run).trans (ih (run.step p))

/-- However far a run is followed, its channels go forward. -/
theorem precedes_advance (p : Program) (n : Nat) (run : Run) :
    run.state.console.Precedes (run.advance p n).state.console :=
  (reaches_advance p n run).precedes

end Run

/-- A run leaves the state that it is followed to. -/
theorem Program.state_run (p : Program) (budget : Budget) (state : State) :
    (p.run budget state).2 = ((Run.ofLines p.lines state).advance p budget.steps).state :=
  Run.state_conclude budget.limit _

end LineBasic
