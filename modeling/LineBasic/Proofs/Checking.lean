import LineBasic.Proofs.Editing
import LineBasic.Proofs.Entry
import LineBasic.Proofs.Text.Lines

/-!
# Checking a file and loading it

Checking goes through all lines of a file and collects their errors. Loading stops at the first line
that has one. Whether a line has an error, and which, is a matter of the line alone
(`Entry.fault?`): a line that is neither blank nor numbered lacks a number, and a line with a number
has the error of its text. So both ways of reading a file find the same first error, and what has
been loaded then is the program of the lines in front of it.

## Main definitions

* `Entry.fault?`: the error of a line in a file.

## Main results

* `Program.errors_checkLines`: the errors of a file are those of its lines;
* `Session.loadLines_of_split?`: loading a line with a number is entering it;
* `Session.load_agrees_check`: checking a file and loading it.
-/

namespace LineBasic

/-- The error of a text as the error of the line that it stands in. -/
def Error.under (number : LineNumber) : Error → Error
  | .statement _ errors => .statement (some number) errors
  | error => error

/-- The error of a line in a file: it lacks a number, or its text is no statement. -/
def Entry.fault? (line : List Char) : Option Error :=
  match LineNumber.split? (Text.dropLineEnd line) with
  | none =>
    if Text.trim line = [] then none
    else some (.missingLineNumber (String.ofList (Text.trim line)))
  | some (number, rest) =>
    if Text.trim rest = [] then none
    else
      match Parser.parse (String.ofList (Text.trim rest)) with
      | .ok _ => none
      | .error error => some (error.under number)

namespace Program

/-! ## The errors of lines -/

/-- A line has its error whatever the program is. -/
theorem editLine_eq_error_iff {p : Program} {line : List Char} {error : Error} :
    p.editLine line = .error error ↔ Entry.fault? line = some error := by
  have hmeans := Entry.means_ofText line
  unfold editLine Entry.fault?
  generalize Entry.ofText line = entry at hmeans
  cases hmeans with
  | blank hsplit hblank => simp [hsplit, hblank]
  | command hsplit hvisible => simp [hsplit, hvisible]
  | erase hsplit hempty => simp [hsplit, hempty]
  | store hsplit hbody hparse => simp [hsplit, hbody, hparse]
  | unreadable hsplit hbody hparse => simp [hsplit, hbody, hparse, Error.under]

/-- A line without an error edits every program. -/
theorem exists_editLine {line : List Char} (h : Entry.fault? line = none) (p : Program) :
    ∃ edited, p.editLine line = .ok edited := by
  cases hedit : p.editLine line with
  | ok edited => exact ⟨edited, rfl⟩
  | error error =>
      rw [editLine_eq_error_iff.mp hedit] at h
      cases h

theorem exists_editLines {lines : List (List Char)} (h : ∀ line ∈ lines, Entry.fault? line = none)
    (p : Program) : ∃ edited, p.editLines lines = .ok edited := by
  induction lines generalizing p with
  | nil => exact ⟨p, rfl⟩
  | cons line later ih =>
      obtain ⟨hline, hlater⟩ := List.forall_mem_cons.mp h
      obtain ⟨first, hfirst⟩ := exists_editLine hline p
      rw [editLines_cons_of_ok hfirst]
      exact ih hlater first

/-- Checking reports the errors of the lines, in their order. -/
theorem errors_checkLines (p : Program) (lines : List (List Char)) :
    (p.checkLines lines).2 = lines.filterMap Entry.fault? := by
  induction lines generalizing p with
  | nil => rfl
  | cons line later ih =>
      unfold checkLines
      cases hedit : p.editLine line with
      | ok edited =>
          have hfault : Entry.fault? line = none := by
            rw [Option.eq_none_iff_forall_ne_some]
            intro error hfault
            rw [editLine_eq_error_iff.mpr hfault] at hedit
            cases hedit
          rw [List.filterMap_cons_none hfault]
          exact ih edited
      | error error =>
          rw [List.filterMap_cons_some (editLine_eq_error_iff.mp hedit)]
          exact congrArg (error :: ·) (ih p)

/-- A file is refused with the errors of its lines, and there is one. -/
theorem check_eq_error_iff {source : String} {errors : List Error} :
    check source = .error errors ↔
      errors ≠ [] ∧ (Text.lines source.toList).filterMap Entry.fault? = errors := by
  have hchecked := errors_checkLines empty (Text.lines source.toList)
  rw [← hchecked]
  unfold check
  generalize empty.checkLines (Text.lines source.toList) = checked
  obtain ⟨p, found⟩ := checked
  cases found with
  | nil =>
      constructor
      · intro h
        cases h
      · rintro ⟨hne, rfl⟩
        exact absurd rfl hne
  | cons error others =>
      constructor
      · intro h
        injection h with h
        exact ⟨h ▸ List.cons_ne_nil error others, h⟩
      · rintro ⟨-, rfl⟩
        rfl

end Program

namespace Session

/-! ## Loading -/

/-- Loading a line with a number is entering it. -/
theorem loadLines_of_split? {s : Session} {line rest : List Char} {number : LineNumber}
    (h : LineNumber.split? (Text.dropLineEnd line) = some (number, rest))
    (later : List (List Char)) :
    s.loadLines (line :: later) =
      if (s.enter (String.ofList line)).1.isOk then
        (s.enter (String.ofList line)).2.loadLines later
      else s.enter (String.ofList line) :=
  loadLines_cons (Entry.ne_command_of_split? h) later

/-- Loading stops at a line with an error. -/
theorem loadLines_of_fault? {s : Session} {line : List Char} {error : Error}
    (h : Entry.fault? line = some error) (later : List (List Char)) :
    s.loadLines (line :: later) = (.error error, s) := by
  have hedit : s.program.editLine line = .error error := Program.editLine_eq_error_iff.mpr h
  rw [loadLines, hedit]

/-- **Checking and loading agree.** A file that is checked without an error has no line with an
error, and is loaded into a session without a program as what checking it yields. A file that is
refused is refused with the errors of its lines, each line's error once, in the order of the lines.
Loading it stops with the first of these errors, at the first line that has one, and leaves the
program that checking yields for the part of the file in front of that line. Loading changes the
program alone. -/
theorem load_agrees_check (source : String) (state : State) (budget : Budget) :
    (∀ p, Program.check source = .ok p →
        (Text.lines source.toList).filterMap Entry.fault? = [] ∧
          (Session.mk .empty state budget).load source = (.ok (), ⟨p, state, budget⟩)) ∧
      ∀ errors, Program.check source = .error errors →
        (Text.lines source.toList).filterMap Entry.fault? = errors ∧
          ∃ first others front earlier line later p,
            errors = first :: others ∧
              Text.lines source.toList = earlier ++ line :: later ∧
              (∀ text ∈ earlier, Entry.fault? text = none) ∧
              Entry.fault? line = some first ∧
              front.toList <+: source.toList ∧
              Text.lines front.toList = earlier ∧
              Program.check front = .ok p ∧
              (Session.mk .empty state budget).load source = (.error first, ⟨p, state, budget⟩) := by
  refine ⟨fun p h => ⟨?_, ?_⟩, fun errors h => ?_⟩
  · have hlines := Program.checkLines_eq_iff.mpr (Program.check_eq_ok_iff.mp h)
    rw [← Program.errors_checkLines .empty, hlines]
  · exact loadLines_of_editLines (Program.check_eq_ok_iff.mp h)
  · obtain ⟨hne, hfaults⟩ := Program.check_eq_error_iff.mp h
    obtain ⟨first, others, rfl⟩ := List.exists_cons_of_ne_nil hne
    obtain ⟨earlier, line, later, hlines, hearlier, hfault, -⟩ :=
      List.filterMap_eq_cons_iff.mp hfaults
    obtain ⟨p, hedit⟩ := Program.exists_editLines hearlier .empty
    obtain ⟨front, back, hsource, hfront, -⟩ := Text.exists_append_of_lines hlines
    refine ⟨hfaults, first, others, String.ofList front, earlier, line, later, p, rfl, hlines,
      hearlier, hfault, ?_, ?_, ?_, ?_⟩
    · rw [String.toList_ofList, hsource]
      exact List.prefix_append front back
    · rw [String.toList_ofList, hfront]
    · rw [Program.check_eq_ok_iff, String.toList_ofList, hfront]
      exact hedit
    · unfold load
      rw [hlines, loadLines_append hedit, loadLines_of_fault? hfault]

/-- A file with a line that is erased again, a line without a statement and one without a number. -/
def faulty : String := "20 END\r\n10 REM\n20\n30 GOTO\n\t PRINT \n"

/-- Checking finds both faults; loading stops at the first, with the lines in front of it loaded.
The part of the file without faults is loaded as it is checked. -/
theorem load_agrees_check_faulty :
    (∃ p, Program.check "20 END\r\n10 REM\n20\n" = .ok p ∧
        (Session.mk .empty ⟨.empty, .ofInput []⟩ ⟨9, 0⟩).load "20 END\r\n10 REM\n20\n" =
          (.ok (), ⟨p, ⟨.empty, .ofInput []⟩, ⟨9, 0⟩⟩)) ∧
      Program.check faulty =
        .error [.statement (some 30) [.lineNumberRequired .GOTO], .missingLineNumber "PRINT"] ∧
      ∃ front p, front.toList <+: faulty.toList ∧ Program.check front = .ok p ∧
        (Session.mk .empty ⟨.empty, .ofInput []⟩ ⟨9, 0⟩).load faulty =
          (.error (.statement (some 30) [.lineNumberRequired .GOTO]),
            ⟨p, ⟨.empty, .ofInput []⟩, ⟨9, 0⟩⟩) := by
  have hsound : ∀ line ∈ Text.lines "20 END\r\n10 REM\n20\n".toList, Entry.fault? line = none := by
    decide +kernel
  have hfaults : (Text.lines faulty.toList).filterMap Entry.fault? =
      [.statement (some 30) [.lineNumberRequired .GOTO], .missingLineNumber "PRINT"] := by
    decide +kernel
  have hcheck := Program.check_eq_error_iff.mpr ⟨by simp, hfaults⟩
  obtain ⟨p, hedit⟩ := Program.exists_editLines hsound .empty
  have hok := Program.check_eq_ok_iff.mpr hedit
  refine ⟨⟨p, hok, ((load_agrees_check _ _ _).1 p hok).2⟩, hcheck, ?_⟩
  obtain ⟨-, first, others, front, earlier, line, later, q, hfirst, -, -, -, hfront, -, hq,
      hload⟩ :=
    (load_agrees_check faulty ⟨.empty, .ofInput []⟩ ⟨9, 0⟩).2 _ hcheck
  injection hfirst with hfirst
  exact ⟨front, q, hfront, hq, hfirst ▸ hload⟩

end Session

end LineBasic
