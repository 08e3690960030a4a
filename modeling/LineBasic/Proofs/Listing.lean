import LineBasic.Proofs.Program
import LineBasic.Proofs.RoundTrip
import LineBasic.Proofs.Stored
import LineBasic.Proofs.Text.Tight

/-!
# Listings as program files

A listing has one line for each line of a program: the number, a space and the text as it was
entered. If the texts are faithful and each is in one line, the listing is a program file again, and
its program is the one that was listed. Each line is then read as it stands: it is tight, its number
ends at the space, and what is behind the space is trimmed to the text; and lines in ascending order
are put behind one another.

## Main definitions

* `ProgramLine.Listable`: a faithful line whose text is in one line;
* `Program.listing`: the text of a listing.

## Main results

* `Entry.ofText_listed`: what a line of a listing stores;
* `Program.check_listing`: the program of a listing.
-/

namespace LineBasic

open Text (Tight)

/-! ## The number in front of a line -/

theorem IsDecimal.tight {text whole fraction : List Char} (h : IsDecimal text whole fraction) :
    Tight text :=
  .of_visible (by simp [h.text_eq, h.whole_ne_nil]) h.visible

/-- The text of a line number is one line. -/
theorem LineNumber.toString_tight (line : LineNumber) : Tight (toString line).toList :=
  (LineNumber.isDecimal line).tight

/-- A valid number is split off the text behind it. -/
theorem LineNumber.split?_toString {line : LineNumber} (h : line.Valid) (text : List Char) :
    LineNumber.split? ((toString line).toList ++ ' ' :: text) = some (line, ' ' :: text) := by
  have hnumber : LineNumber.ofDigits? (toString line).toList = some line :=
    LineNumber.ofDigits?_eq_some_iff.mpr h.denotesLine
  exact LineNumber.split?_eq_some_iff.mpr ⟨[], _, rfl, by simp, hnumber, rfl⟩

/-! ## One line -/

/-- A faithful line whose text is in one line. -/
structure ProgramLine.Listable (line : ProgramLine) : Prop extends line.Faithful where
  no_lineFeed : '\n' ∉ line.source.toList

namespace ProgramLine

/-- The line as it is listed, without a line feed. -/
def listedText (line : ProgramLine) : List Char :=
  (toString line.number).toList ++ ' ' :: line.source.toList

theorem Listable.source_tight {line : ProgramLine} (h : line.Listable) :
    Tight line.source.toList where
  no_lineFeed := h.no_lineFeed
  ne_nil hnil := h.ne_empty (String.toList_eq_nil_iff.mp hnil)
  head_visible := h.head_visible
  last_visible := h.last_visible

theorem Listable.listedText_tight {line : ProgramLine} (h : line.Listable) :
    Tight line.listedText := by
  have hspace : '\n' ∉ [' '] := by decide
  exact (LineNumber.toString_tight line.number).between hspace h.source_tight

end ProgramLine

/-- Lines without a line feed store lines that can be listed. -/
theorem Entry.storesOnly_listable {text : List Char} (h : '\n' ∉ Text.dropLineEnd text) :
    StoresOnly ProgramLine.Listable text := fun line hline =>
  ⟨storesOnly_faithful text line hline, storesOnly_no_lineFeed h line hline⟩

/-- The text that a line is listed as stores the line, also where it is not one line of a file. -/
theorem Entry.ofText_listed {line : ProgramLine} (h : line.Faithful) :
    Entry.ofText line.listedText = .ok (.store line) := by
  have hne : line.source.toList ≠ [] := mt String.toList_eq_nil_iff.mp h.ne_empty
  have hend : Text.Stops Text.isBlank line.listedText.reverse := by
    rw [ProgramLine.listedText, List.reverse_append, List.reverse_cons, List.append_assoc]
    exact h.last_visible.append (mt List.reverse_eq_nil_iff.mp hne) _
  have hsplit : LineNumber.split? line.listedText = some (line.number, ' ' :: _) :=
    LineNumber.split?_toString h.number line.source.toList
  have hwhole : Text.dropLineEnd line.listedText = line.listedText :=
    Text.dropEndWhile_of_stops (hend.mono fun _ => Text.isBlank_of_lineEnd)
  rw [← hwhole] at hsplit
  exact Entry.ofText_eq_store hsplit (Text.trim_space h.head_visible h.last_visible) hne h.statement

/-! ## A whole listing -/

namespace Program

/-- The text of a listing. -/
def listing (p : Program) : String :=
  String.join (p.lines.map fun line => listed line.number line.source)

/-- A listing holds each line as it is listed, with a line feed behind it. -/
theorem toList_listing (p : Program) :
    p.listing.toList = (p.lines.map ProgramLine.listedText).flatMap (· ++ ['\n']) := by
  unfold listing listed
  rw [String.toList_join, List.flatMap_map, List.flatMap_map]
  simp [ProgramLine.listedText]

theorem lines_listing {p : Program} (h : ∀ line ∈ p.lines, line.Listable) :
    Text.lines p.listing.toList = p.lines.map ProgramLine.listedText := by
  rw [toList_listing]
  apply Text.lines_of_tight
  intro text hmem
  obtain ⟨line, hline, rfl⟩ := List.mem_map.mp hmem
  exact (h line hline).listedText_tight

/-- Each line of a listing is one more line of the program. -/
theorem editLine_listed (p : Program) {line : ProgramLine} (h : line.Listable) :
    p.editLine line.listedText = .ok (p.insert line) := by
  unfold editLine
  rw [Entry.ofText_listed h.toFaithful]
  rfl

/-- Lines of a listing, in ascending order, are put behind one another. -/
theorem editLines_listed {p : Program} {lines : List ProgramLine}
    (h : ∀ line ∈ lines, line.Listable)
    (hascending : (p.lines ++ lines).Pairwise (·.number < ·.number)) :
    ∃ p', p.editLines (lines.map ProgramLine.listedText) = .ok p' ∧
      p'.lines = p.lines ++ lines := by
  induction lines generalizing p with
  | nil => exact ⟨p, rfl, by simp⟩
  | cons line later ih =>
      obtain ⟨hline, hlater⟩ := List.forall_mem_cons.mp h
      have habove : ∀ other ∈ p.lines, other.number < line.number := by
        intro other hmem
        exact (List.pairwise_append.mp hascending).2.2 other hmem line (by simp)
      have hinsert : (p.insert line).lines = p.lines ++ [line] := insertLine_of_above habove
      have hrest : ((p.insert line).lines ++ later).Pairwise (·.number < ·.number) := by
        rw [hinsert, List.append_assoc]
        exact hascending
      obtain ⟨p', hedit, hlines⟩ := ih hlater hrest
      refine ⟨p', ?_, ?_⟩
      · rw [List.map_cons, editLines_cons_of_ok (p.editLine_listed hline)]
        exact hedit
      · rw [hlines, hinsert, List.append_assoc]
        rfl

/-- The lines of a listing make the program that was listed. -/
theorem editLines_listing {p : Program} (h : ∀ line ∈ p.lines, line.Listable) :
    empty.editLines (Text.lines p.listing.toList) = .ok p := by
  rw [lines_listing h]
  obtain ⟨p', hedit, hlines⟩ := editLines_listed (p := empty) h p.ascending
  rw [hedit, eq_of_lines (q := p) hlines]

/-- The program of a listing is the one that was listed. -/
theorem check_listing {p : Program} (h : ∀ line ∈ p.lines, line.Listable) :
    check p.listing = .ok p := check_eq_ok_iff.mpr (editLines_listing h)

end Program

end LineBasic
