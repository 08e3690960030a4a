import LineBasic.Proofs.Editing
import LineBasic.Proofs.Entry
import LineBasic.Proofs.Reading

/-!
# What is stored

A line is stored with its number, a text and a statement. The number is a line number, the text is
trimmed and not empty, and the statement is what the text is parsed as: nothing of a line's text is
lost that its statement comes from, and the text is the same however often it is trimmed again. With
the text being one that is parsed, the statement is well formed.

All characters of the text are characters of the line that was entered. So a line without a line
feed, other than in its line end, stores a text without one.

## Main definitions

* `ProgramLine.Faithful`: a line whose text and statement agree.

## Main results

* `Entry.storesOnly_faithful`: every line that is stored is faithful;
* `Program.wellFormed_of_check`: the program of a file is well formed;
* `Entry.storesOnly_no_lineFeed`: the text of a stored line is in one line.
-/

namespace LineBasic

/-- A line with a valid number, and a trimmed text that its statement is read from. -/
structure ProgramLine.Faithful (line : ProgramLine) : Prop where
  number : line.number.Valid
  ne_empty : line.source ≠ ""
  head_visible : Text.Stops Text.isBlank line.source.toList
  last_visible : Text.Stops Text.isBlank line.source.toList.reverse
  statement : Parser.parse line.source = .ok line.statement

/-! ## Numbers and statements -/

/-- Digits denote a valid line number or none. -/
theorem LineNumber.valid_of_ofDigits? {digits : List Char} {number : LineNumber}
    (h : LineNumber.ofDigits? digits = some number) : number.Valid := by
  have hdenotes : DenotesLine (String.ofList digits) number :=
    LineNumber.ofDigits?_eq_some_iff.mp (by rwa [String.toList_ofList])
  exact hdenotes.valid

/-- The number in front of a line is valid. -/
theorem LineNumber.valid_of_split? {line rest : List Char} {number : LineNumber}
    (h : LineNumber.split? line = some (number, rest)) : number.Valid := by
  obtain ⟨indent, digits, -, -, hnumber, -⟩ := LineNumber.split?_eq_some_iff.mp h
  exact LineNumber.valid_of_ofDigits? hnumber

/-- A statement that is parsed is well formed. -/
theorem Parser.wellFormed_of_parse {source : String} {s : Statement} (h : parse source = .ok s) :
    s.WellFormed := Statement.wellFormed_of_ofText (parse_eq_ok_iff.mp h)

theorem ProgramLine.Faithful.wellFormed {line : ProgramLine} (h : line.Faithful) :
    line.WellFormed where
  number := h.number
  statement := Parser.wellFormed_of_parse h.statement

namespace Entry

/-- A line that is stored is faithful. -/
theorem storesOnly_faithful (text : List Char) : StoresOnly ProgramLine.Faithful text := by
  intro line h
  have hmeans := means_ofText text
  rw [h] at hmeans
  cases hmeans with
  | @store number rest statement hsplit hbody hparse =>
      refine ⟨LineNumber.valid_of_split? hsplit, ?_, ?_, ?_, hparse⟩
      · intro hempty
        exact hbody (String.ofList_eq_empty_iff.mp hempty)
      · simpa using Text.stops_trim rest
      · simpa using Text.stops_reverse_trim rest

end Entry

/-- The lines of a file's program are faithful. -/
theorem Program.faithful_of_check {source : String} {p : Program} (h : check source = .ok p) :
    ∀ line ∈ p.lines, line.Faithful := forall_check h fun text _ => Entry.storesOnly_faithful text

/-- The program of a file is well formed. -/
theorem Program.wellFormed_of_check {source : String} {p : Program} (h : check source = .ok p) :
    p.WellFormed := fun line hmem => (faithful_of_check h line hmem).wellFormed

/-! ## The characters of a stored text -/

namespace Text

theorem mem_of_mem_dropEndWhile {p : Char → Bool} {text : List Char} {c : Char}
    (h : c ∈ dropEndWhile p text) : c ∈ text := by
  obtain ⟨tail, -, htext⟩ := exists_dropEndWhile_append p text
  rw [htext]
  exact List.mem_append_left tail h

theorem mem_of_mem_trim {text : List Char} {c : Char} (h : c ∈ trim text) : c ∈ text :=
  (List.dropWhile_sublist isBlank).subset (mem_of_mem_dropEndWhile h)

end Text

/-- What is behind a line's number is a piece of the line. -/
theorem LineNumber.mem_of_mem_split? {line rest : List Char} {number : LineNumber}
    (h : LineNumber.split? line = some (number, rest)) {c : Char} (hc : c ∈ rest) : c ∈ line := by
  obtain ⟨indent, digits, rfl, -⟩ := LineNumber.split?_eq_some_iff.mp h
  exact List.mem_append_right _ hc

/-- A line with no line feed but in its line end stores a text without one. -/
theorem Entry.storesOnly_no_lineFeed {text : List Char} (h : '\n' ∉ Text.dropLineEnd text) :
    StoresOnly (fun line => '\n' ∉ line.source.toList) text := by
  intro line hline
  have hmeans := means_ofText text
  rw [hline] at hmeans
  cases hmeans with
  | @store number rest statement hsplit hbody hparse =>
      intro hmem
      have htrim : '\n' ∈ Text.trim rest := by simpa using hmem
      exact h (LineNumber.mem_of_mem_split? hsplit (Text.mem_of_mem_trim htrim))

end LineBasic
