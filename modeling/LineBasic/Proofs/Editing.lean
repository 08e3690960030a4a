import LineBasic.Session

/-!
# Editing a program line by line

Checking a file and loading one go through its lines in the same way, and part at the first error
only: checking goes on to collect the others. Where no line has an error both come to the same
program, the one that the lines make of the program before them.

Whatever is stored has been read from a line. So a property of all stored lines is kept by editing if
no line that is read stores one without it.

## Main results

* `Session.loadLines_cons`: loading a line is entering it;
* `Program.check_eq_ok_iff`, `Session.load_of_check`: files without errors;
* `Program.forall_editLines`, `Session.forall_loadLines`: properties of all stored lines.
-/

namespace LineBasic

/-- A result of which something is known is there. -/
theorem exists_ok_of_toOption {ε α β : Type} {result : Except ε α} {f : α → β} {b : β}
    (h : result.toOption.map f = some b) : ∃ a, result = .ok a ∧ f a = b := by
  cases result with
  | ok a =>
      injection h with h
      exact ⟨a, rfl, h⟩
  | error error => cases h

namespace Program

/-- What some lines make of a program, or the first error among them. -/
def editLines (p : Program) (lines : List (List Char)) : Except Error Program :=
  lines.foldlM editLine p

/-- A line without an error asks for something that is no command, and edits the program so. -/
theorem editLine_eq_ok_iff {p p' : Program} {line : List Char} :
    p.editLine line = .ok p' ↔ ∃ entry, Entry.ofText line = .ok entry ∧
      (∀ text, entry ≠ .command text) ∧ p' = entry.edit p := by
  unfold editLine
  cases Entry.ofText line with
  | error error => simp
  | ok entry =>
      cases entry with
      | command text => simp
      | _ => simp [eq_comm]

@[simp] theorem editLines_nil (p : Program) : p.editLines [] = .ok p := rfl

theorem editLines_cons_of_ok {p edited : Program} {line : List Char}
    (h : p.editLine line = .ok edited) (later : List (List Char)) :
    p.editLines (line :: later) = edited.editLines later := by
  unfold editLines
  rw [List.foldlM_cons, h]
  rfl

theorem editLines_cons_of_error {p : Program} {line : List Char} {error : Error}
    (h : p.editLine line = .error error) (later : List (List Char)) :
    p.editLines (line :: later) = .error error := by
  unfold editLines
  rw [List.foldlM_cons, h]
  rfl

/-- Lines without an error are those whose first line has none and whose others have none. -/
theorem editLines_cons_iff {p p' : Program} {line : List Char} {later : List (List Char)} :
    p.editLines (line :: later) = .ok p' ↔
      ∃ edited, p.editLine line = .ok edited ∧ edited.editLines later = .ok p' := by
  cases hline : p.editLine line with
  | ok edited => simp [editLines_cons_of_ok hline]
  | error error => simp [editLines_cons_of_error hline]

/-- Lines are checked without an error exactly if no line has one. -/
theorem checkLines_eq_iff {p p' : Program} {lines : List (List Char)} :
    p.checkLines lines = (p', []) ↔ p.editLines lines = .ok p' := by
  induction lines generalizing p with
  | nil => simp [checkLines]
  | cons line later ih =>
      rw [checkLines, editLines_cons_iff]
      cases p.editLine line with
      | ok edited => simp [ih]
      | error error => simp

/-- A file is checked without an error exactly if no line has one. -/
theorem check_eq_ok_iff {source : String} {p : Program} :
    check source = .ok p ↔ empty.editLines (Text.lines source.toList) = .ok p := by
  rw [← checkLines_eq_iff]
  unfold check
  split
  · next found heq => simp [heq]
  · next found errors hne heq =>
    have herrors : errors ≠ [] := hne
    simp [heq, herrors]

end Program

namespace Session

/-- A line of a file that has no error there is entered with the same effect. -/
theorem enter_of_editLine {s : Session} {line : List Char} {p : Program}
    (h : s.program.editLine line = .ok p) :
    s.enter (String.ofList line) = (.ok (), { s with program := p }) := by
  obtain ⟨entry, hentry, hcommand, rfl⟩ := Program.editLine_eq_ok_iff.mp h
  unfold enter
  rw [String.toList_ofList, hentry]
  cases entry with
  | command text => exact absurd rfl (hcommand text)
  | blank => rfl
  | erase number => rfl
  | store stored => rfl

/-- Loading a line that is no command is entering it: the others are loaded behind it, unless it has
an error. -/
theorem loadLines_cons {s : Session} {line : List Char}
    (h : ∀ text, Entry.ofText line ≠ .ok (.command text)) (later : List (List Char)) :
    s.loadLines (line :: later) =
      if (s.enter (String.ofList line)).1.isOk then
        (s.enter (String.ofList line)).2.loadLines later
      else s.enter (String.ofList line) := by
  rw [loadLines]
  unfold Program.editLine enter
  rw [String.toList_ofList]
  cases hentry : Entry.ofText line with
  | error error => rfl
  | ok entry =>
      cases entry with
      | command text => exact absurd hentry (h text)
      | blank => rfl
      | erase number => rfl
      | store stored => rfl

/-- Lines without an error are loaded before the others. -/
theorem loadLines_append {s : Session} {earlier : List (List Char)} {p : Program}
    (h : s.program.editLines earlier = .ok p) (later : List (List Char)) :
    s.loadLines (earlier ++ later) = { s with program := p : Session }.loadLines later := by
  induction earlier generalizing s with
  | nil =>
      injection h with h
      rw [← h]
      rfl
  | cons line earlier ih =>
      obtain ⟨edited, hline, hearlier⟩ := Program.editLines_cons_iff.mp h
      rw [List.cons_append, loadLines, hline]
      exact ih hearlier

/-- Lines without an error are loaded. -/
theorem loadLines_of_editLines {s : Session} {lines : List (List Char)} {p : Program}
    (h : s.program.editLines lines = .ok p) :
    s.loadLines lines = (.ok (), { s with program := p }) := by
  have hload := loadLines_append h []
  rwa [List.append_nil] at hload

/-- A file that is checked without an error is loaded into a session without a program. -/
theorem load_of_check {source : String} {p : Program} (h : Program.check source = .ok p)
    (console : Console) (budget : Budget) :
    (start console budget).load source =
      (.ok (), { start console budget with program := p }) :=
  loadLines_of_editLines (Program.check_eq_ok_iff.mp h)

end Session

/-! ## Properties of all stored lines -/

/-- A line stores a line with a property, if it stores one. -/
def Entry.StoresOnly (P : ProgramLine → Prop) (text : List Char) : Prop :=
  ∀ line, Entry.ofText text = .ok (.store line) → P line

section Stored

variable {P : ProgramLine → Prop}

namespace Program

theorem forall_empty : ∀ line ∈ empty.lines, P line := by
  intro line hmem
  cases hmem

/-- An entry keeps a property of all lines, if what it stores has it. -/
theorem forall_edit {p : Program} (h : ∀ line ∈ p.lines, P line) {entry : Entry}
    (hentry : ∀ line, entry = .store line → P line) : ∀ line ∈ (entry.edit p).lines, P line := by
  cases entry with
  | blank => exact h
  | erase number => exact fun line hmem => h line (List.mem_filter.mp hmem).1
  | store stored =>
      intro line hmem
      rcases mem_insertLine hmem with rfl | hother
      · exact hentry line rfl
      · exact h line hother
  | command text => exact h

theorem forall_editLine {p p' : Program} (h : ∀ line ∈ p.lines, P line) {text : List Char}
    (htext : Entry.StoresOnly P text) (hedit : p.editLine text = .ok p') :
    ∀ line ∈ p'.lines, P line := by
  obtain ⟨entry, hentry, -, rfl⟩ := editLine_eq_ok_iff.mp hedit
  exact forall_edit h fun line hline => htext line (hline ▸ hentry)

/-- Editing keeps a property of all lines that every stored line has. -/
theorem forall_editLines {p p' : Program} (h : ∀ line ∈ p.lines, P line)
    {texts : List (List Char)} (htexts : ∀ text ∈ texts, Entry.StoresOnly P text)
    (hedit : p.editLines texts = .ok p') : ∀ line ∈ p'.lines, P line := by
  induction texts generalizing p with
  | nil =>
      injection hedit with hedit
      exact hedit ▸ h
  | cons text later ih =>
      obtain ⟨htext, hlater⟩ := List.forall_mem_cons.mp htexts
      obtain ⟨edited, hline, hrest⟩ := editLines_cons_iff.mp hedit
      exact ih (forall_editLine h htext hline) hlater hrest

theorem forall_check {source : String} {p : Program} (h : check source = .ok p)
    (htexts : ∀ text ∈ Text.lines source.toList, Entry.StoresOnly P text) :
    ∀ line ∈ p.lines, P line := forall_editLines forall_empty htexts (check_eq_ok_iff.mp h)

end Program

/-- Loading keeps a property of all lines that every stored line has, also when it stops early. -/
theorem Session.forall_loadLines {s : Session} (h : ∀ line ∈ s.program.lines, P line)
    {texts : List (List Char)} (htexts : ∀ text ∈ texts, Entry.StoresOnly P text) :
    ∀ line ∈ (s.loadLines texts).2.program.lines, P line := by
  induction texts generalizing s with
  | nil => exact h
  | cons text later ih =>
      obtain ⟨htext, hlater⟩ := List.forall_mem_cons.mp htexts
      unfold loadLines
      cases hedit : s.program.editLine text with
      | ok edited => exact ih (Program.forall_editLine h htext hedit) hlater
      | error error => exact h

end Stored

end LineBasic
