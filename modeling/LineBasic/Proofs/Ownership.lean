import LineBasic.Proofs.Checking
import LineBasic.Proofs.Requests

/-!
# Who changes what

A line that is entered changes what it is for, and nothing else. A numbered line owns what is stored
under its number. `RUN` owns the store and the channels, and `LIST` what is written; `NEW` owns the
program and the store. A line that is rejected owns nothing, and neither does a blank one. None of
this depends on how a command ends: a run that fails in the middle of a statement leaves the program
as it was, and so the line that failed can be entered anew and the program run again.

The cases are those of `Session.Enters`, with the session that each of them leaves. Along a
sequence of lines, whatever comes of them, the store changes at `RUN` and `NEW` alone, and the
output grows at `RUN` and `LIST` alone.

## Main definitions

* `Error.rejects`: errors in a line itself, found before anything is done;
* `Session.Enters`: what can come of entering a line.

## Main results

* `Session.enters_enter`: what comes of a line is one of the cases;
* `Session.enter_owns`: what each line leaves as it was.
-/

namespace LineBasic

/-- Whether an error is one of the line itself, and not of what it asks for. -/
def Error.rejects : Error → Bool
  | .statement _ _ | .unknownCommand _ | .missingLineNumber _ => true
  | .channel _ | .runtime _ _ | .unfinished _ => false

/-! ## Runs and listings -/

/-- Writing adds to the output, and does nothing else. -/
theorem Console.Writes.exists_output {c d : Console} (h : c.Writes d) :
    ∃ bytes : List UInt8, d = { c with output := c.output ++ bytes } := by
  induction h with
  | refl => exact ⟨[], by simp⟩
  | @write d text _ ih =>
      obtain ⟨earlier, rfl⟩ := ih
      obtain ⟨bytes, hwritten⟩ := exists_write { c with output := c.output ++ earlier } text
      have hboth : c.output ++ earlier ++ bytes = c.output ++ (earlier ++ bytes) :=
        Array.toList_inj.mp (by simp)
      exact ⟨earlier ++ bytes, by rw [hwritten, ← hboth]⟩

/-- The error of a run is one of the program. -/
theorem Run.not_rejects_of_conclude {run : Run} {limit : Nat} {error : Error}
    (h : (run.conclude limit).1 = .error error) : error.rejects = false := by
  cases run with
  | active line later state =>
      simp only [conclude] at h
      split at h
      · cases h
        rfl
      · cases h
        rfl
  | ended state =>
      simp only [conclude] at h
      cases hflush : state.console.flush with
      | ok _ =>
          rw [hflush] at h
          cases h
      | error fault =>
          rw [hflush] at h
          cases h
          rfl
  | failed line fault state =>
      cases h
      rfl

namespace Session

variable {s : Session} {line : String} {error : Error}

theorem not_rejects_of_run (h : s.run.1 = .error error) : error.rejects = false :=
  Run.not_rejects_of_conclude h

theorem not_rejects_of_list (h : s.list.1 = .error error) : error.rejects = false := by
  unfold list at h
  split at h
  · cases h
  · cases h
    rfl

/-- A run changes the state alone, and its channels go forward. -/
theorem run_owns (s : Session) :
    ∃ state, s.run.2 = { s with state } ∧ s.state.console.Precedes state.console :=
  ⟨_, rfl, (s.program.reaches_run s.budget { s.state with store := .empty }).precedes⟩

/-- A listing adds to the output alone. -/
theorem list_owns (s : Session) :
    ∃ bytes : List UInt8,
      s.list.2 = { s with state.console.output := s.state.console.output ++ bytes } := by
  obtain ⟨bytes, hbytes⟩ := (s.program.writes_list s.state.console).exists_output
  have hlist : s.list.2 = { s with state.console := (s.program.list s.state.console).2 } := by
    unfold list
    generalize s.program.list s.state.console = outcome
    obtain ⟨result, console⟩ := outcome
    cases result <;> rfl
  exact ⟨bytes, by rw [hlist, hbytes]⟩

/-! ## One line -/

/-- What can come of entering a line. -/
inductive Enters (s : Session) (line : String) : Except Error Unit × Session → Prop where
  | blank : Text.trim line.toList = [] → Enters s line (.ok (), s)
  | edits {number : LineNumber} {rest : List Char} {program : Program} :
      LineNumber.split? (Text.dropLineEnd line.toList) = some (number, rest) →
        (∀ other, other ≠ number → program.get? other = s.program.get? other) →
          Enters s line (.ok (), { s with program })
  | unreadable {number : LineNumber} {rest : List Char} {errors : List SyntaxError} :
      LineNumber.split? (Text.dropLineEnd line.toList) = some (number, rest) →
        Enters s line (.error (.statement (some number) errors), s)
  | runs : isCommand .RUN line → Enters s line s.run
  | lists : isCommand .LIST line → Enters s line s.list
  | clears : isCommand .NEW line → Enters s line (.ok (), s.clear)
  | unknown :
      LineNumber.split? (Text.dropLineEnd line.toList) = none → Text.trim line.toList ≠ [] →
        ¬isCommand .RUN line → ¬isCommand .LIST line → ¬isCommand .NEW line →
          Enters s line (.error (.unknownCommand (String.ofList (Text.trim line.toList))), s)

/-- What comes of a line is one of the cases. -/
theorem enters_enter (s : Session) (line : String) : Enters s line (s.enter line) := by
  have hmeans := Entry.means_ofText line.toList
  unfold enter
  generalize Entry.ofText line.toList = entry at hmeans
  cases hmeans with
  | blank hsplit hblank => exact .blank hblank
  | command hsplit hvisible =>
      simp only [apply, command, String.toList_ofList]
      split
      · next hrun => exact .runs ((isCommand_iff line .RUN).mp hrun)
      · next hlist => exact .lists ((isCommand_iff line .LIST).mp hlist)
      · next hnew => exact .clears ((isCommand_iff line .NEW).mp hnew)
      · next hrun hlist hnew =>
        exact .unknown hsplit hvisible (fun h => hrun ((isCommand_iff line .RUN).mpr h))
          (fun h => hlist ((isCommand_iff line .LIST).mpr h))
          (fun h => hnew ((isCommand_iff line .NEW).mpr h))
  | @erase number rest hsplit hempty =>
      -- The program as a map is the same at all other numbers, also if nothing was stored there.
      refine .edits hsplit fun other hother => ?_
      rw [Entry.edit, Program.get?_erase, if_neg (Ne.symm hother)]
  | @store number rest statement hsplit hbody hparse =>
      refine .edits hsplit fun other hother => ?_
      rw [Entry.edit, Program.get?_insert, if_neg (Ne.symm hother)]
  | unreadable hsplit hbody hparse => exact .unreadable hsplit

/-- A blank line is no command. -/
theorem isCommand_of_blank (h : Text.trim line.toList = []) (k : Keyword) :
    isCommand k line = false := by
  apply decide_eq_false
  rw [h]
  cases k <;> decide

theorem enter_of_blank (h : Text.trim line.toList = []) : s.enter line = (.ok (), s) := by
  have hentry : Entry.ofText line.toList = .ok .blank := by
    unfold Entry.ofText
    dsimp only
    rw [Text.trim_dropLineEnd, if_pos h]
  unfold enter
  rw [hentry]
  rfl

/-- A line that is a command is carried out. -/
theorem enter_of_isCommand {k : Keyword} (h : isCommand k line) :
    s.enter line = s.command (String.ofList (Text.trim line.toList)) := by
  have hmeans := Entry.means_ofText line.toList
  unfold enter
  generalize Entry.ofText line.toList = entry at hmeans
  cases hmeans with
  | command hsplit hvisible => rfl
  | blank hsplit hblank => exact absurd h (by simp [isCommand_of_blank hblank])
  | erase hsplit _ => exact absurd h (by simp [isCommand_of_split? hsplit])
  | store hsplit _ _ => exact absurd h (by simp [isCommand_of_split? hsplit])
  | unreadable hsplit _ _ => exact absurd h (by simp [isCommand_of_split? hsplit])

theorem enter_of_run (h : isCommand .RUN line) : s.enter line = s.run := by
  have htokens := (isCommand_iff line .RUN).mpr h
  simp only [enter_of_isCommand h, command, String.toList_ofList, htokens]

theorem enter_of_list (h : isCommand .LIST line) : s.enter line = s.list := by
  have htokens := (isCommand_iff line .LIST).mpr h
  simp only [enter_of_isCommand h, command, String.toList_ofList, htokens]

theorem enter_of_new (h : isCommand .NEW line) : s.enter line = (.ok (), s.clear) := by
  have htokens := (isCommand_iff line .NEW).mpr h
  simp only [enter_of_isCommand h, command, String.toList_ofList, htokens]

/-- A line whose text has an error in a file has it in a session. -/
theorem enter_of_fault? {number : Option LineNumber} {errors : List SyntaxError}
    (h : Entry.fault? line.toList = some (.statement number errors)) :
    s.enter line = (.error (.statement number errors), s) := by
  have hmeans := Entry.means_ofText line.toList
  unfold Entry.fault? at h
  unfold enter
  generalize Entry.ofText line.toList = entry at hmeans
  cases hmeans with
  | blank hsplit hblank => simp [hsplit, hblank] at h
  | command hsplit hvisible => simp [hsplit, hvisible] at h
  | erase hsplit hempty => simp [hsplit, hempty] at h
  | store hsplit hbody hparse => simp [hsplit, hbody, hparse] at h
  | unreadable hsplit hbody hparse =>
      simp only [hsplit, if_neg hbody, hparse, Error.under, Option.some.injEq] at h
      rw [h]

/-- A line with a number owns that number. -/
theorem enter_of_split? {number : LineNumber} {rest : List Char}
    (h : LineNumber.split? (Text.dropLineEnd line.toList) = some (number, rest)) :
    ∃ program, (s.enter line).2 = { s with program } ∧
      ∀ other, other ≠ number → program.get? other = s.program.get? other := by
  have henters := s.enters_enter line
  generalize s.enter line = outcome at henters
  cases henters with
  | blank _ => exact ⟨s.program, rfl, fun _ _ => rfl⟩
  | edits hsplit hothers =>
      rw [h] at hsplit
      injection hsplit with hsplit
      injection hsplit with hnumber _
      subst hnumber
      exact ⟨_, rfl, hothers⟩
  | unreadable _ => exact ⟨s.program, rfl, fun _ _ => rfl⟩
  | runs hrun => exact absurd hrun (by simp [isCommand_of_split? h])
  | lists hlist => exact absurd hlist (by simp [isCommand_of_split? h])
  | clears hnew => exact absurd hnew (by simp [isCommand_of_split? h])
  | unknown _ _ _ _ _ => exact ⟨s.program, rfl, fun _ _ => rfl⟩

/-- A line that is rejected owns nothing. -/
theorem enter_of_rejects (h : (s.enter line).1 = .error error) (hrejects : error.rejects) :
    (s.enter line).2 = s := by
  have henters := s.enters_enter line
  generalize s.enter line = outcome at h henters
  cases henters with
  | blank _ => rfl
  | edits _ _ => cases h
  | unreadable _ => rfl
  | runs _ =>
      rw [not_rejects_of_run h] at hrejects
      cases hrejects
  | lists _ =>
      rw [not_rejects_of_list h] at hrejects
      cases hrejects
  | clears _ => cases h
  | unknown _ _ _ _ _ => rfl

/-- Only `RUN` and `NEW` change the store. -/
theorem store_enter (hrun : ¬isCommand .RUN line) (hnew : ¬isCommand .NEW line) :
    (s.enter line).2.state.store = s.state.store := by
  have henters := s.enters_enter line
  generalize s.enter line = outcome at henters
  cases henters with
  | blank _ => rfl
  | edits _ _ => rfl
  | unreadable _ => rfl
  | runs h => exact absurd h hrun
  | lists _ =>
      obtain ⟨bytes, hlist⟩ := s.list_owns
      rw [hlist]
  | clears h => exact absurd h hnew
  | unknown _ _ _ _ _ => rfl

/-- Only `RUN` and `LIST` write. -/
theorem output_enter (hrun : ¬isCommand .RUN line) (hlist : ¬isCommand .LIST line) :
    (s.enter line).2.state.console.output = s.state.console.output := by
  have henters := s.enters_enter line
  generalize s.enter line = outcome at henters
  cases henters with
  | blank _ => rfl
  | edits _ _ => rfl
  | unreadable _ => rfl
  | runs h => exact absurd h hrun
  | lists h => exact absurd h hlist
  | clears _ => rfl
  | unknown _ _ _ _ _ => rfl

/-! ## Many lines -/

theorem enterAll_cons (s : Session) (line : String) (later : List String) :
    s.enterAll (line :: later) = (s.enter line).2.enterAll later := rfl

/-- A file that is loaded without an error is its lines, entered one after another. -/
theorem enterAll_of_loadLines {t : Session} {lines : List (List Char)}
    (h : s.loadLines lines = (.ok (), t)) : s.enterAll (lines.map String.ofList) = t := by
  induction lines generalizing s with
  | nil => exact congrArg Prod.snd h
  | cons line later ih =>
      rw [loadLines] at h
      cases hedit : s.program.editLine line with
      | ok p =>
          rw [hedit] at h
          rw [List.map_cons, enterAll_cons, enter_of_editLine hedit]
          exact ih h
      | error error =>
          rw [hedit] at h
          cases h

/-- Without a `RUN` and a `NEW` the store stays as it is. -/
theorem store_enterAll {lines : List String}
    (h : ∀ line ∈ lines, ¬isCommand .RUN line ∧ ¬isCommand .NEW line) :
    (s.enterAll lines).state.store = s.state.store := by
  induction lines generalizing s with
  | nil => rfl
  | cons line later ih =>
      obtain ⟨⟨hrun, hnew⟩, hlater⟩ := List.forall_mem_cons.mp h
      rw [enterAll_cons, ih hlater, store_enter hrun hnew]

/-- Without a `RUN` and a `LIST` the output stays as it is. -/
theorem output_enterAll {lines : List String}
    (h : ∀ line ∈ lines, ¬isCommand .RUN line ∧ ¬isCommand .LIST line) :
    (s.enterAll lines).state.console.output = s.state.console.output := by
  induction lines generalizing s with
  | nil => rfl
  | cons line later ih =>
      obtain ⟨⟨hrun, hlist⟩, hlater⟩ := List.forall_mem_cons.mp h
      rw [enterAll_cons, ih hlater, output_enter hrun hlist]

/-- Whatever is entered, the channels go forward. -/
theorem precedes_enterAll (s : Session) (lines : List String) :
    s.state.console.Precedes (s.enterAll lines).state.console := by
  have hrequests : s.enterAll lines = s.serveAll (lines.map .enter) := by
    unfold enterAll serveAll
    rw [List.foldl_map]
    rfl
  rw [hrequests]
  exact (s.reaches_serveAll _).precedes

/-- **Each line changes what it owns, and nothing else.** In every session: a line that is rejected
leaves the session as it is, and so does a blank one. A line with a number leaves everything as it
is but what is stored under that number. `RUN` leaves the program, whatever comes of it, and `LIST`
leaves all but the output, to which it adds. `NEW` leaves no program and an empty store, and the
channels as they are. So, of the lines that are entered one after another, only `RUN` and `NEW`
change the store, and only `RUN` and `LIST` change the output, where nothing is ever taken back. -/
theorem enter_owns (s : Session) :
    (∀ line error, (s.enter line).1 = .error error → error.rejects → (s.enter line).2 = s) ∧
      (∀ line, Text.trim line.toList = [] → s.enter line = (.ok (), s)) ∧
      (∀ line number rest,
        LineNumber.split? (Text.dropLineEnd line.toList) = some (number, rest) →
          ∃ program, (s.enter line).2 = { s with program } ∧
            ∀ other, other ≠ number → program.get? other = s.program.get? other) ∧
      (∀ line, isCommand .RUN line →
        ∃ state, (s.enter line).2 = { s with state } ∧
          s.state.console.Precedes state.console) ∧
      (∀ line, isCommand .LIST line →
        ∃ bytes : List UInt8, (s.enter line).2 =
          { s with state.console.output := s.state.console.output ++ bytes }) ∧
      (∀ line, isCommand .NEW line →
        (s.enter line).2 = ⟨.empty, ⟨.empty, s.state.console⟩, s.budget⟩) ∧
      ∀ earlier later,
        (s.enterAll earlier).state.console.Precedes
            (s.enterAll (earlier ++ later)).state.console ∧
          ((∀ line ∈ later, ¬isCommand .RUN line ∧ ¬isCommand .NEW line) →
            (s.enterAll (earlier ++ later)).state.store = (s.enterAll earlier).state.store) ∧
          ((∀ line ∈ later, ¬isCommand .RUN line ∧ ¬isCommand .LIST line) →
            (s.enterAll (earlier ++ later)).state.console.output =
              (s.enterAll earlier).state.console.output) := by
  refine ⟨fun line error h => enter_of_rejects h, fun line => enter_of_blank,
    fun line number rest => enter_of_split?, fun line h => ?_, fun line h => ?_, fun line h => ?_,
    fun earlier later => ?_⟩
  · rw [enter_of_run h]
    exact s.run_owns
  · rw [enter_of_list h]
    exact s.list_owns
  · rw [enter_of_new h]
    rfl
  · rw [enterAll_append]
    exact ⟨precedes_enterAll _ later, store_enterAll, output_enterAll⟩

/-- A session whose program goes to a line that is not there, with its output so far. -/
def astray : Session :=
  ⟨(Program.empty.insert ⟨10, "PRINT \"A\"", .print [.text "A"]⟩).insert
    ⟨20, "GOTO 40", .jump 40⟩, ⟨.empty, .ofInput []⟩, ⟨9, 0⟩⟩

/-- The run fails after it has written, and leaves the program. A line without a statement leaves
everything. The line entered anew leaves the first one, and no edit
touches the store or the output. -/
theorem enter_owns_astray :
    (astray.enter " run\n").1 = .error (.runtime 20 (.undefinedLine 40)) ∧
      (astray.enter " run\n").2.program = astray.program ∧
      (astray.enter " run\n").2.state.console.output = #[65, 10] ∧
      (astray.enter "20 GOTO").2 = astray ∧
      (astray.enter "20 END").2.program.get? 10 = astray.program.get? 10 ∧
      (astray.enterAll ["20 END", "20 GOTO"]).state.store = astray.state.store ∧
      (astray.enterAll ["20 END", "20 GOTO"]).state.console.output = #[] := by
  obtain ⟨hrejects, -, hnumbered, hrun, -, -, hlater⟩ := enter_owns astray
  have hcommand : isCommand .RUN " run\n" := by decide +kernel
  obtain ⟨state, hstate, -⟩ := hrun " run\n" hcommand
  obtain ⟨program, hprogram, hothers⟩ :=
    hnumbered "20 END" 20 " END".toList (by decide +kernel)
  have hfault : Entry.fault? "20 GOTO".toList =
      some (.statement (some 20) [.lineNumberRequired .GOTO]) := by decide +kernel
  refine ⟨?_, by rw [hstate], ?_, ?_, ?_, ?_, ?_⟩
  · rw [enter_of_run hcommand]
    rfl
  · rw [enter_of_run hcommand]
    rfl
  · exact hrejects "20 GOTO" _ (congrArg Prod.fst (enter_of_fault? hfault)) rfl
  · rw [hprogram]
    exact hothers 10 (by decide)
  · exact (hlater [] _).2.1 (by decide +kernel)
  · exact (hlater [] _).2.2 (by decide +kernel)

end Session

end LineBasic
