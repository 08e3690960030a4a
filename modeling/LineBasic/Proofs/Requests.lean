import LineBasic.Proofs.History
import LineBasic.Proofs.Output
import LineBasic.Proofs.Stored

/-!
# Sessions and what is asked of them

A session is asked to take a line, to load a file, to run its program and to list it, any number of
times, and goes on whatever comes of a request. A request does two things apart from each other. It
edits the program, and then only lines that were read come into it. And it makes *uses* of the state
that programs run in: a program is run, all variables are forgotten, or a program is listed. What a
session does to its state is no more than that, so whatever is kept by every use of a state is kept by
every request (`state_serveAll`).

## Main definitions

* `Request`, `Session.serveAll`: requests, answered one after another;
* `Use`, `State.useAll`: what is done with a state;
* `Session.usesAll`: the uses that requests make of the session's state.

## Main results

* `Session.forall_serveAll`: properties of all stored lines;
* `Session.state_serveAll`: what requests do to the state;
* `Session.stored_agrees`: what is parsed, and what is stored.
-/

namespace LineBasic

/-! ## Requests -/

/-- What a session can be asked for. -/
inductive Request where
  | enter (line : String)
  | load (source : String)
  | run
  | list
  deriving DecidableEq

/-- The lines that a request is given. -/
def Request.texts : Request → List (List Char)
  | .enter line => [line.toList]
  | .load source => Text.lines source.toList
  | .run | .list => []

namespace Session

/-- Answers a request. -/
def serve (s : Session) : Request → Except Error Unit × Session
  | .enter line => s.enter line
  | .load source => s.load source
  | .run => s.run
  | .list => s.list

/-- The session after some requests, whatever came of them. -/
def serveAll (s : Session) (requests : List Request) : Session :=
  requests.foldl (fun s request => (s.serve request).2) s

theorem serveAll_cons (s : Session) (request : Request) (later : List Request) :
    s.serveAll (request :: later) = (s.serve request).2.serveAll later := rfl

/-! ## The program -/

theorem program_list (s : Session) : s.list.2.program = s.program := by
  unfold list
  split <;> rfl

section Stored

variable {P : ProgramLine → Prop} {s : Session}

theorem forall_command (h : ∀ line ∈ s.program.lines, P line) (text : String) :
    ∀ line ∈ (s.command text).2.program.lines, P line := by
  rw [program_command]
  split
  · exact Program.forall_empty
  · exact h

theorem forall_enter (h : ∀ line ∈ s.program.lines, P line) {text : String}
    (htext : Entry.StoresOnly P text.toList) :
    ∀ line ∈ (s.enter text).2.program.lines, P line := by
  unfold enter
  cases hentry : Entry.ofText text.toList with
  | error error => exact h
  | ok entry =>
      have hstores (line : ProgramLine) (hline : entry = .store line) : P line :=
        htext line (by rw [hentry, hline])
      cases entry with
      | command text => exact forall_command h text
      | blank => exact Program.forall_edit h hstores
      | erase number => exact Program.forall_edit h hstores
      | store line => exact Program.forall_edit h hstores

/-- A request keeps a property of all lines that every stored line has. -/
theorem forall_serve (h : ∀ line ∈ s.program.lines, P line) {request : Request}
    (htexts : ∀ text ∈ request.texts, Entry.StoresOnly P text) :
    ∀ line ∈ (s.serve request).2.program.lines, P line := by
  cases request with
  | enter text => exact forall_enter h (htexts text.toList (List.mem_singleton_self _))
  | load source => exact forall_loadLines h htexts
  | run => exact h
  | list =>
      unfold serve
      rw [program_list]
      exact h

/-- Requests keep a property of all lines that every stored line has. -/
theorem forall_serveAll (h : ∀ line ∈ s.program.lines, P line) {requests : List Request}
    (htexts : ∀ request ∈ requests, ∀ text ∈ request.texts, Entry.StoresOnly P text) :
    ∀ line ∈ (s.serveAll requests).program.lines, P line := by
  induction requests generalizing s with
  | nil => exact h
  | cons request later ih =>
      obtain ⟨hrequest, hlater⟩ := List.forall_mem_cons.mp htexts
      exact ih (forall_serve h hrequest) hlater

end Stored

/-- Whatever a session was asked for, its lines are faithful. -/
theorem faithful_serveAll (state : State) (budget : Budget) (requests : List Request) :
    ∀ line ∈ ((mk .empty state budget).serveAll requests).program.lines, line.Faithful :=
  forall_serveAll Program.forall_empty fun _ _ text _ => Entry.storesOnly_faithful text

/-- **Statements can be said, and stored lines say theirs.** Every statement that is parsed is well
formed. In every session, whatever it was asked for and whatever came of it, and in the program of
every file, each line has a valid number and a trimmed text, not empty, that is parsed as the line's
statement. -/
theorem stored_agrees :
    (∀ source statement, Parser.parse source = .ok statement → statement.WellFormed) ∧
      (∀ state budget requests,
        ∀ line ∈ ((mk .empty state budget).serveAll requests).program.lines, line.Faithful) ∧
      ∀ source p, Program.check source = .ok p → ∀ line ∈ p.lines, line.Faithful :=
  ⟨fun _ _ => Parser.wellFormed_of_parse, faithful_serveAll, fun _ _ => Program.faithful_of_check⟩

/-- Requests of all kinds: a line with blanks around its text, a file that is given up at its second
line, and runs, a listing and a line without a statement after it. -/
def assorted : List Request :=
  [.enter "20 print \t1 \r\n", .load "10\tREM \"x\n30 GOTO 0\n40 END\n", .enter "run", .run, .list,
    .enter "10 LET"]

/-- Both stored lines agree with their texts, also the one that was stored before the file was given
up. So does the line of a file, and a statement in lower case is parsed as a well-formed one. -/
theorem stored_agrees_assorted :
    (∃ statement, Parser.parse "if a$=\"é\" then 007" = .ok statement ∧ statement.WellFormed) ∧
      (∀ line ∈ [⟨10, "REM \"x", .comment⟩, ⟨20, "print \t1", .print [.number 1]⟩],
        line ∈ ((mk .empty ⟨.empty, .ofInput []⟩ ⟨9, 0⟩).serveAll assorted).program.lines ∧
          line.Faithful) ∧
      ∃ p, Program.check "\n 5 goto 007\r\n" = .ok p ∧ p.lines = [⟨5, "goto 007", .jump 7⟩] ∧
        ∀ line ∈ p.lines, line.Faithful := by
  obtain ⟨hparsed, hstored, hchecked⟩ := stored_agrees
  have hparse : (Parser.parse "if a$=\"é\" then 007").toOption.map id =
      some (.ifJump (.binary (.variable "A$") .equal (.text "é")) 7) := by decide +kernel
  have hlines : ∀ line ∈ [⟨10, "REM \"x", .comment⟩, ⟨20, "print \t1", .print [.number 1]⟩],
      line ∈ ((mk .empty ⟨.empty, .ofInput []⟩ ⟨9, 0⟩).serveAll assorted).program.lines := by
    decide +kernel
  have hfile : (Program.check "\n 5 goto 007\r\n").toOption.map Program.lines =
      some [⟨5, "goto 007", .jump 7⟩] := by decide +kernel
  obtain ⟨statement, hstatement, -⟩ := exists_ok_of_toOption hparse
  obtain ⟨p, hcheck, hp⟩ := exists_ok_of_toOption hfile
  refine ⟨⟨statement, hstatement, hparsed _ _ hstatement⟩, fun line hmem => ?_, ?_⟩
  · exact ⟨hlines line hmem, hstored _ _ _ line (hlines line hmem)⟩
  · exact ⟨p, hcheck, hp, hchecked _ p hcheck⟩

end Session

/-! ## The state -/

/-- What is done with the state that programs run in. -/
inductive Use where
  | run (p : Program) (budget : Budget)
  /-- All variables are forgotten. -/
  | reset
  | list (p : Program)

namespace State

/-- The state after one use. -/
def use (s : State) : Use → State
  | .run p budget => (p.run budget s).2
  | .reset => { s with store := .empty }
  | .list p => { s with console := (p.list s.console).2 }

/-- The state after some uses, whatever came of them. -/
def useAll (s : State) (uses : List Use) : State := uses.foldl use s

theorem useAll_cons (s : State) (use : Use) (later : List Use) :
    s.useAll (use :: later) = (s.use use).useAll later := rfl

theorem useAll_append (s : State) (earlier later : List Use) :
    s.useAll (earlier ++ later) = (s.useAll earlier).useAll later := List.foldl_append

end State

namespace Session

/-- The uses that a command makes of the state. -/
def commandUses (s : Session) (text : String) : List Use :=
  if Token.ofText text.toList = [.keyword .RUN] then [.reset, .run s.program s.budget]
  else if Token.ofText text.toList = [.keyword .LIST] then [.list s.program]
  else if Token.ofText text.toList = [.keyword .NEW] then [.reset]
  else []

/-- The uses that a request makes of the state. -/
def uses (s : Session) : Request → List Use
  | .enter line =>
    match Entry.ofText line.toList with
    | .ok (.command text) => s.commandUses text
    | _ => []
  | .load _ => []
  | .run => [.reset, .run s.program s.budget]
  | .list => [.list s.program]

/-- The uses that requests make of the state, one after another. -/
def usesAll (s : Session) : List Request → List Use
  | [] => []
  | request :: later => s.uses request ++ (s.serve request).2.usesAll later

theorem state_run (s : Session) :
    s.run.2.state = s.state.useAll [.reset, .run s.program s.budget] := rfl

theorem state_list (s : Session) : s.list.2.state = s.state.useAll [.list s.program] := by
  unfold list
  show _ = { s.state with console := (s.program.list s.state.console).2 }
  split
  · next hlisted => rw [hlisted]
  · next hlisted => rw [hlisted]

theorem state_command (s : Session) (text : String) :
    (s.command text).2.state = s.state.useAll (s.commandUses text) := by
  unfold command
  split
  · next hrun =>
    rw [commandUses, if_pos hrun]
    exact s.state_run
  · next hlist =>
    rw [commandUses, if_neg (by simp [hlist]), if_pos hlist]
    exact s.state_list
  · next hnew =>
    rw [commandUses, if_neg (by simp [hnew]), if_neg (by simp [hnew]), if_pos hnew]
    rfl
  · next hrun hlist hnew =>
    rw [commandUses, if_neg hrun, if_neg hlist, if_neg hnew]
    rfl

theorem state_loadLines (s : Session) (texts : List (List Char)) :
    (s.loadLines texts).2.state = s.state := by
  induction texts generalizing s with
  | nil => rfl
  | cons text later ih =>
      unfold loadLines
      cases s.program.editLine text with
      | ok edited => exact ih _
      | error error => rfl

/-- A request makes its uses of the state, and changes nothing else in it. -/
theorem state_serve (s : Session) (request : Request) :
    (s.serve request).2.state = s.state.useAll (s.uses request) := by
  cases request with
  | enter line =>
      simp only [serve, enter, uses]
      cases Entry.ofText line.toList with
      | error error => rfl
      | ok entry =>
          cases entry with
          | command text => exact s.state_command text
          | blank => rfl
          | erase number => rfl
          | store stored => rfl
  | load source => exact s.state_loadLines _
  | run => exact s.state_run
  | list => exact s.state_list

/-- What requests do to the state are their uses of it. -/
theorem state_serveAll (s : Session) (requests : List Request) :
    (s.serveAll requests).state = s.state.useAll (s.usesAll requests) := by
  induction requests generalizing s with
  | nil => rfl
  | cons request later ih =>
      rw [serveAll_cons, ih, usesAll, State.useAll_append, state_serve]

end Session

/-! ## The channels -/

theorem Program.reaches_run (p : Program) (budget : Budget) (state : State) :
    state.console.Reaches (p.run budget state).2.console := by
  have hrun := Run.reaches_advance p budget.steps (Run.ofLines p.lines state)
  rwa [Run.state_ofLines, ← state_run] at hrun

theorem Program.writes_listLines (lines : List ProgramLine) (c : Console) :
    c.Writes (listLines lines c).2 := by
  induction lines generalizing c with
  | nil => exact .refl
  | cons line later ih =>
      have hwrite := c.writes_write (listed line.number line.source)
      unfold listLines
      generalize c.write (listed line.number line.source) = outcome at hwrite
      obtain ⟨result, written⟩ := outcome
      cases result with
      | ok _ => exact hwrite.trans (ih written)
      | error fault => exact hwrite

/-- A listing does not read. -/
theorem Program.writes_list (p : Program) (c : Console) : c.Writes (p.list c).2 := by
  have hlines := writes_listLines p.lines c
  unfold list
  generalize listLines p.lines c = outcome at hlines
  obtain ⟨result, written⟩ := outcome
  cases result with
  | ok _ => exact hlines
  | error fault => exact hlines

theorem State.reaches_use (s : State) (use : Use) : s.console.Reaches (s.use use).console := by
  cases use with
  | run p budget => exact p.reaches_run budget s
  | reset => exact .refl
  | list p => exact (p.writes_list s.console).reaches

theorem State.reaches_useAll (s : State) (uses : List Use) :
    s.console.Reaches (s.useAll uses).console := by
  induction uses generalizing s with
  | nil => exact .refl
  | cons use later ih =>
      rw [useAll_cons]
      exact (s.reaches_use use).trans (ih (s.use use))

/-- A session does nothing to its channels but writing and reading. -/
theorem Session.reaches_serveAll (s : Session) (requests : List Request) :
    s.state.console.Reaches (s.serveAll requests).state.console := by
  rw [state_serveAll]
  exact s.state.reaches_useAll _

end LineBasic
