import LineBasic.Program

/-!
# The lines of a program

A program's numbers ascend strictly, so each number is stored once, and the lines behind a line are
those with greater numbers. Most facts here are about an end of the list of lines: wherever a run
is, what it has ahead is such an end.

## Main results

* `get?_of_suffix`, `from?_of_suffix`: a line is found, with the lines behind it, by its number;
* `min?_above_of_suffix`: the number after a line's number is that of the next line;
* `get?_insert`, `get?_erase`, `eq_of_get?`: a program as a map from numbers to lines.
-/

namespace LineBasic.Program

/-- No number is stored twice. -/
theorem numbers_pairwise (p : Program) : p.numbers.Pairwise (· < ·) :=
  List.pairwise_map.mpr p.ascending

theorem mem_numbers {p : Program} {number : LineNumber} :
    number ∈ p.numbers ↔ ∃ line ∈ p.lines, line.number = number := List.mem_map

/-- An end of the lines ascends too. -/
theorem pairwise_of_suffix {p : Program} {lines : List ProgramLine} (h : lines <:+ p.lines) :
    lines.Pairwise (·.number < ·.number) := p.ascending.sublist h.sublist

theorem mem_numbers_of_suffix {p : Program} {line : ProgramLine} {later : List ProgramLine}
    (h : (line :: later) <:+ p.lines) : line.number ∈ p.numbers :=
  mem_numbers.mpr ⟨line, h.subset (by simp), rfl⟩

/-- A stored number has a line, with the lines behind it. -/
theorem exists_suffix {p : Program} {number : LineNumber} (h : number ∈ p.numbers) :
    ∃ line later, (line :: later) <:+ p.lines ∧ line.number = number := by
  obtain ⟨line, hmem, hnumber⟩ := mem_numbers.mp h
  obtain ⟨earlier, later, hsplit⟩ := List.append_of_mem hmem
  exact ⟨line, later, ⟨earlier, hsplit.symm⟩, hnumber⟩

/-- The lines in front of a line have smaller numbers. -/
theorem lt_of_earlier {p : Program} {earlier later : List ProgramLine} {line other : ProgramLine}
    (h : earlier ++ line :: later = p.lines) (hmem : other ∈ earlier) :
    other.number < line.number := by
  have hascending := p.ascending
  rw [← h, List.pairwise_append] at hascending
  exact hascending.2.2 other hmem line (by simp)

/-- A line is found by its number. -/
theorem get?_of_suffix {p : Program} {line : ProgramLine} {later : List ProgramLine}
    (h : (line :: later) <:+ p.lines) : p.get? line.number = some line := by
  obtain ⟨earlier, hsplit⟩ := h
  have hearlier : earlier.find? (·.number = line.number) = none := by
    apply List.find?_eq_none.mpr
    intro other hmem
    have hne : other.number ≠ line.number := Nat.ne_of_lt (lt_of_earlier hsplit hmem)
    simpa using hne
  unfold get?
  rw [← hsplit, List.find?_append, hearlier]
  simp

/-- A line is found by its number with the lines behind it. -/
theorem from?_of_suffix {p : Program} {line : ProgramLine} {later : List ProgramLine}
    (h : (line :: later) <:+ p.lines) : p.from? line.number = some (line, later) := by
  obtain ⟨earlier, hsplit⟩ := h
  have hearlier : ∀ other ∈ earlier, decide (other.number < line.number) := fun other hmem =>
    decide_eq_true (lt_of_earlier hsplit hmem)
  have hahead : p.lines.dropWhile (·.number < line.number) = line :: later := by
    rw [← hsplit, List.dropWhile_append_of_pos hearlier]
    simp
  unfold from?
  rw [hahead]
  simp

/-- Two ends of the lines that begin with one number are the same end. -/
theorem suffix_unique {p : Program} {line other : ProgramLine} {later rest : List ProgramLine}
    (h : (line :: later) <:+ p.lines) (h' : (other :: rest) <:+ p.lines)
    (hnumber : line.number = other.number) : line :: later = other :: rest := by
  have hfound := from?_of_suffix h
  rw [hnumber, from?_of_suffix h'] at hfound
  injection hfound with hfound
  injection hfound with hline hlater
  rw [hline, hlater]

/-- A number that is not stored is not found. -/
theorem from?_of_not_mem {p : Program} {number : LineNumber} (h : number ∉ p.numbers) :
    p.from? number = none := by
  unfold from?
  split
  · rfl
  · next line later hahead =>
    rw [if_neg]
    intro hnumber
    apply h
    have hmem : line ∈ p.lines.dropWhile (·.number < number) := by simp [hahead]
    exact mem_numbers.mpr ⟨line, (List.dropWhile_sublist _).subset hmem, hnumber⟩

/-- A number is found exactly if it is stored. -/
theorem from?_eq_none_iff {p : Program} {number : LineNumber} :
    p.from? number = none ↔ number ∉ p.numbers := by
  refine ⟨fun hnone hmem => ?_, from?_of_not_mem⟩
  obtain ⟨line, later, hsuffix, rfl⟩ := exists_suffix hmem
  rw [from?_of_suffix hsuffix] at hnone
  cases hnone

/-- What is found is an end of the lines. -/
theorem suffix_of_from? {p : Program} {number : LineNumber} {line : ProgramLine}
    {later : List ProgramLine} (h : p.from? number = some (line, later)) :
    (line :: later) <:+ p.lines := by
  by_cases hmem : number ∈ p.numbers
  · obtain ⟨found, rest, hsuffix, rfl⟩ := exists_suffix hmem
    rw [from?_of_suffix hsuffix] at h
    injection h with h
    injection h with hline hlater
    rwa [← hline, ← hlater]
  · rw [from?_of_not_mem hmem] at h
    cases h

theorem get?_of_mem {p : Program} {line : ProgramLine} (h : line ∈ p.lines) :
    p.get? line.number = some line := by
  obtain ⟨earlier, later, hsplit⟩ := List.append_of_mem h
  exact get?_of_suffix ⟨earlier, hsplit.symm⟩

/-- The least of ascending numbers is the first. -/
theorem min?_of_pairwise {numbers : List LineNumber} (h : numbers.Pairwise (· < ·)) :
    numbers.min? = numbers.head? :=
  List.min?_eq_head? (h.imp fun hlt => Nat.min_eq_left (Nat.le_of_lt hlt))

/-- The least number is the first line's. -/
theorem min?_numbers (p : Program) : p.numbers.min? = p.lines.head?.map ProgramLine.number := by
  rw [min?_of_pairwise p.numbers_pairwise, numbers, List.head?_map]

/-- The numbers above a line's are those of the lines behind it. -/
theorem numbers_above_of_suffix {p : Program} {line : ProgramLine} {later : List ProgramLine}
    (h : (line :: later) <:+ p.lines) :
    p.numbers.filter (line.number < ·) = later.map ProgramLine.number := by
  have hlater := (List.pairwise_cons.mp (pairwise_of_suffix h)).1
  obtain ⟨earlier, hsplit⟩ := h
  have hbelow : (earlier.map ProgramLine.number).filter (line.number < ·) = [] := by
    apply List.filter_eq_nil_iff.mpr
    intro number hmem
    obtain ⟨other, hother, rfl⟩ := List.mem_map.mp hmem
    have hlt := lt_of_earlier hsplit hother
    simpa using Nat.le_of_lt hlt
  have habove : (later.map ProgramLine.number).filter (line.number < ·) =
      later.map ProgramLine.number := by
    apply List.filter_eq_self.mpr
    intro number hmem
    obtain ⟨other, hother, rfl⟩ := List.mem_map.mp hmem
    simpa using hlater other hother
  unfold numbers
  rw [← hsplit, List.map_append, List.map_cons, List.filter_append, hbelow,
    List.filter_cons_of_neg (by simp), habove, List.nil_append]

/-- The least number above a line's is the next line's. -/
theorem min?_above_of_suffix {p : Program} {line : ProgramLine} {later : List ProgramLine}
    (h : (line :: later) <:+ p.lines) :
    (p.numbers.filter (line.number < ·)).min? = later.head?.map ProgramLine.number := by
  have hlater := (List.pairwise_cons.mp (pairwise_of_suffix h)).2
  rw [numbers_above_of_suffix h, min?_of_pairwise (List.pairwise_map.mpr hlater), List.head?_map]

/-! ## A program as a map -/

/-- A program is determined by its lines. -/
theorem eq_of_lines {p q : Program} (h : p.lines = q.lines) : p = q := by
  cases p
  cases q
  cases h
  rfl

theorem mem_lines_iff {p : Program} {line : ProgramLine} :
    line ∈ p.lines ↔ p.get? line.number = some line :=
  ⟨get?_of_mem, List.mem_of_find?_eq_some⟩

/-- A number is stored exactly if there is a line with it. -/
theorem mem_numbers_iff {p : Program} {number : LineNumber} :
    number ∈ p.numbers ↔ (p.get? number).isSome := by
  constructor
  · intro h
    obtain ⟨line, hline, rfl⟩ := mem_numbers.mp h
    rw [get?_of_mem hline]
    rfl
  · intro h
    obtain ⟨line, hline⟩ := Option.isSome_iff_exists.mp h
    have hnumber : line.number = number := by simpa using List.find?_some hline
    exact mem_numbers.mpr ⟨line, List.mem_of_find?_eq_some hline, hnumber⟩

theorem get?_empty (number : LineNumber) : empty.get? number = none := rfl

/-- Inserting a line changes the program at the line's number only. -/
theorem get?_insert (p : Program) (line : ProgramLine) (number : LineNumber) :
    (p.insert line).get? number = if line.number = number then some line else p.get? number := by
  show (insertLine line p.lines).find? (·.number = number) = _
  unfold get?
  induction p.lines with
  | nil => by_cases h : line.number = number <;> simp [insertLine, h]
  | cons first later ih =>
      unfold insertLine
      by_cases hbefore : line.number < first.number
      · rw [if_pos hbefore]
        by_cases h : line.number = number <;> simp [h]
      · rw [if_neg hbefore]
        by_cases hsame : line.number = first.number
        · rw [if_pos hsame]
          by_cases h : line.number = number
          · simp [h]
          · have hfirst : first.number ≠ number := hsame ▸ h
            simp [h, hfirst]
        · rw [if_neg hsame]
          by_cases hfirst : first.number = number
          · have h : line.number ≠ number := fun heq => hsame (heq.trans hfirst.symm)
            simp [h, hfirst]
          · simpa [hfirst] using ih

/-- Erasing a number changes the program at that number only. -/
theorem get?_erase (p : Program) (erased number : LineNumber) :
    (p.erase erased).get? number = if erased = number then none else p.get? number := by
  unfold get? erase
  rw [List.find?_filter]
  by_cases h : erased = number
  · subst h
    simp
  · rw [if_neg h]
    congr 1
    funext line
    by_cases hline : line.number = number
    · simp [hline, Ne.symm h]
    · simp [hline]

/-- Programs with the same lines at all numbers are the same. -/
theorem eq_of_get? {p q : Program} (h : ∀ number, p.get? number = q.get? number) : p = q := by
  have hdistinct (r : Program) : r.lines.Nodup := by
    refine r.ascending.imp ?_
    rintro line other hlt rfl
    exact Nat.lt_irrefl _ hlt
  have hmem (line : ProgramLine) : line ∈ p.lines ↔ line ∈ q.lines := by
    rw [mem_lines_iff, mem_lines_iff, h]
  have hperm := (List.perm_ext_iff_of_nodup (hdistinct p) (hdistinct q)).mpr hmem
  have hlines : p.lines = q.lines := by
    refine hperm.eq_of_pairwise ?_ p.ascending q.ascending
    intro a b _ _ hab hba
    exact absurd (Nat.lt_trans hab hba) (Nat.lt_irrefl _)
  exact eq_of_lines hlines

/-! ## Building a program -/

/-- A line above all others is inserted behind them. -/
theorem insertLine_of_above {line : ProgramLine} {lines : List ProgramLine}
    (h : ∀ other ∈ lines, other.number < line.number) :
    insertLine line lines = lines ++ [line] := by
  induction lines with
  | nil => rfl
  | cons first later ih =>
      obtain ⟨hfirst, hlater⟩ := List.forall_mem_cons.mp h
      have hnotBefore : ¬line.number < first.number := Nat.not_lt_of_gt hfirst
      have hne : line.number ≠ first.number := Nat.ne_of_gt hfirst
      rw [insertLine, if_neg hnotBefore, if_neg hne, ih hlater, List.cons_append]

end LineBasic.Program
