import LineBasic.Statement

/-!
# Programs

A program is a list of numbered lines in strictly ascending order. The order is part of the type,
so a program is determined by what it holds at each number, and the lines that come after a line
are the rest of the list behind it.

## Main definitions

* `Program.insert`, `Program.erase`, `Program.get?`: a program as a map from line numbers;
* `Program.from?`: where a jump goes, as the line and all lines after it.
-/

namespace LineBasic

/-- A line of a program: its number, its text as entered, and the statement of that text. -/
structure ProgramLine where
  number : LineNumber
  source : String
  statement : Statement
  deriving DecidableEq

/-- Numbered lines in ascending order. -/
structure Program where
  lines : List ProgramLine
  ascending : lines.Pairwise (·.number < ·.number)

namespace Program

/-- The program without lines. -/
def empty : Program := ⟨[], .nil⟩

/-- The line numbers, in ascending order. -/
def numbers (p : Program) : List LineNumber := p.lines.map ProgramLine.number

/-- The line with a number. -/
def get? (p : Program) (number : LineNumber) : Option ProgramLine :=
  p.lines.find? (·.number = number)

/-! ## Editing -/

/-- The lines with one more in its place, instead of the one with its number if there is one. -/
def insertLine (line : ProgramLine) : List ProgramLine → List ProgramLine
  | [] => [line]
  | first :: rest =>
    if line.number < first.number then line :: first :: rest
    else if line.number = first.number then line :: rest
    else first :: insertLine line rest

theorem mem_insertLine {line other : ProgramLine} {lines : List ProgramLine}
    (h : other ∈ insertLine line lines) : other = line ∨ other ∈ lines := by
  induction lines with
  | nil => simpa [insertLine] using h
  | cons first rest ih =>
    unfold insertLine at h
    split at h
    · simpa using h
    · split at h
      · rcases List.mem_cons.mp h with rfl | hmem
        · exact .inl rfl
        · exact .inr (List.mem_cons_of_mem _ hmem)
      · rcases List.mem_cons.mp h with rfl | hmem
        · exact .inr List.mem_cons_self
        · exact (ih hmem).imp id (List.mem_cons_of_mem _)

theorem insertLine_ascending (line : ProgramLine) {lines : List ProgramLine}
    (h : lines.Pairwise (·.number < ·.number)) :
    (insertLine line lines).Pairwise (·.number < ·.number) := by
  induction lines with
  | nil => simp [insertLine]
  | cons first rest ih =>
    have ⟨hbelow, hrest⟩ := List.pairwise_cons.mp h
    unfold insertLine
    split
    · next hbefore =>
      refine List.pairwise_cons.mpr ⟨fun other hmem => ?_, h⟩
      rcases List.mem_cons.mp hmem with rfl | hmem
      · exact hbefore
      · exact Nat.lt_trans hbefore (hbelow other hmem)
    · split
      · next hsame =>
        exact List.pairwise_cons.mpr ⟨fun other hmem => hsame ▸ hbelow other hmem, hrest⟩
      · next hnotBefore hdifferent =>
        refine List.pairwise_cons.mpr ⟨fun other hmem => ?_, ih hrest⟩
        rcases mem_insertLine hmem with rfl | hmem
        · exact Nat.lt_of_le_of_ne (Nat.le_of_not_lt hnotBefore) (Ne.symm hdifferent)
        · exact hbelow other hmem

/-- The program with a line set. -/
def insert (p : Program) (line : ProgramLine) : Program :=
  ⟨insertLine line p.lines, insertLine_ascending line p.ascending⟩

/-- The program without the line of a number. -/
def erase (p : Program) (number : LineNumber) : Program :=
  ⟨p.lines.filter (·.number ≠ number), p.ascending.filter _⟩

/-! ## Jumping -/

/-- The line with a number, with the lines after it. -/
def from? (p : Program) (number : LineNumber) : Option (ProgramLine × List ProgramLine) :=
  match p.lines.dropWhile (·.number < number) with
  | [] => none
  | line :: later => if line.number = number then some (line, later) else none

end Program

end LineBasic
