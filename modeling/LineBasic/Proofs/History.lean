import LineBasic.Proofs.Command
import LineBasic.Proofs.Entry
import LineBasic.Proofs.Program
import LineBasic.Session

/-!
# The history of a session

What is stored under a number is decided by the lines that were entered. A line revises the number
in front of it, if it is a number alone or if its text is a statement, and no other; every other
line leaves what is stored as it is, with the one exception of `NEW`. So of the lines since the
latest `NEW` the last one that revises a number decides it, and neither commands nor errors play a
part.

The step is one equation for what a number holds after a line (`Session.get?_enter`). The rest
follows by induction on the lines, the latest first, since the latest line is looked at first.

## Main definitions

* `Entry.revision?`: what a line leaves at a number;
* `Session.enterAll`, `Session.sinceNew`: lines entered one after another, and the latest of them.

## Main results

* `Session.get?_enter`: what a line does to the program;
* `Session.program_of_history`: the program of a session's history.
-/

namespace LineBasic

/-- What a line leaves at a number, if it is a line for that number and has no error: nothing, if
the number stands alone, or the line with its statement. -/
def Entry.revision? (number : LineNumber) (line : List Char) : Option (Option ProgramLine) :=
  match LineNumber.split? (Text.dropLineEnd line) with
  | none => none
  | some (found, rest) =>
    if found ≠ number then none
    else if Text.trim rest = [] then some none
    else
      match Parser.parse (String.ofList (Text.trim rest)) with
      | .ok statement => some (some ⟨number, String.ofList (Text.trim rest), statement⟩)
      | .error _ => none

/-- A line leaves all numbers but its own as they are. -/
theorem Entry.revision?_of_ne {line rest : List Char} {found number : LineNumber}
    (h : LineNumber.split? (Text.dropLineEnd line) = some (found, rest)) (hne : found ≠ number) :
    Entry.revision? number line = none := by
  simp [revision?, h, hne]

namespace Session

/-- A line that is a keyword alone, in any letter case and with blanks around it. -/
def isCommand (k : Keyword) (line : String) : Bool :=
  (Text.trim line.toList).map Char.toUpper = k.word.toList

/-- A line that is `NEW`, in any letter case and with blanks around it. -/
def isNew (line : String) : Bool := (Text.trim line.toList).map Char.toUpper = "NEW".toList

/-- The session after some lines have been entered, whatever came of them. -/
def enterAll (s : Session) (lines : List String) : Session :=
  lines.foldl (fun s line => (s.enter line).2) s

/-- The lines after the latest `NEW`, the latest line first. -/
def sinceNew (lines : List String) : List String := lines.reverse.takeWhile fun line => !isNew line

/-! ## One line -/

/-- A line with a number is no command. -/
theorem isCommand_of_split? {line : String} {rest : List Char} {number : LineNumber}
    (h : LineNumber.split? (Text.dropLineEnd line.toList) = some (number, rest)) (k : Keyword) :
    isCommand k line = false := by
  obtain ⟨c, later, htrim, hdigit⟩ := LineNumber.trim_of_split? h
  rw [Text.trim_dropLineEnd] at htrim
  have hself := Text.toUpper_eq_self (.inr hdigit)
  apply decide_eq_false
  intro hcommand
  rw [htrim, List.map_cons, hself] at hcommand
  have hupper := Text.isUpper_iff.mp (Keyword.isUpper_of_mem (hcommand ▸ List.mem_cons_self))
  have hrange := Text.isDigit_iff.mp hdigit
  omega

theorem isNew_of_split? {line : String} {rest : List Char} {number : LineNumber}
    (h : LineNumber.split? (Text.dropLineEnd line.toList) = some (number, rest)) :
    isNew line = false := isCommand_of_split? h .NEW

/-- Of the commands only `NEW` changes the program, and it leaves none. -/
theorem program_command (s : Session) (text : String) :
    (s.command text).2.program =
      if Token.ofText text.toList = [.keyword .NEW] then .empty else s.program := by
  unfold command
  split
  · next hrun => simp [hrun, run]
  · next hlist =>
    simp only [hlist]
    unfold list
    split <;> rfl
  · next hnew => simp [hnew, clear]
  · next _ _ hnew => rw [if_neg hnew]

/-- A line is a command exactly if it is that word. -/
theorem isCommand_iff (line : String) (k : Keyword) :
    Token.ofText (Text.trim line.toList) = [.keyword k] ↔ isCommand k line :=
  (Token.ofText_eq_keyword_iff (Text.stops_trim _) (Text.stops_reverse_trim _) k).trans
    decide_eq_true_iff.symm

theorem isNew_iff (line : String) :
    Token.ofText (Text.trim line.toList) = [.keyword .NEW] ↔ isNew line := isCommand_iff line .NEW

/-- **What a line does to the program**: `NEW` leaves nothing, and any other line leaves at a number
what it revises there. -/
theorem get?_enter (s : Session) (line : String) (number : LineNumber) :
    (s.enter line).2.program.get? number =
      if isNew line then none
      else (Entry.revision? number line.toList).getD (s.program.get? number) := by
  have hmeans := Entry.means_ofText line.toList
  unfold enter
  generalize Entry.ofText line.toList = entry at hmeans
  cases hmeans with
  | blank hsplit hblank =>
      have hnew : isNew line = false := by simp [isNew, hblank]
      simp [hnew, Entry.revision?, hsplit, apply, Entry.edit]
  | command hsplit hvisible =>
      simp only [apply, program_command, String.toList_ofList, isNew_iff]
      by_cases hnew : isNew line
      · simp [hnew, Program.get?_empty]
      · simp [hnew, Entry.revision?, hsplit]
  | @erase found rest hsplit hempty =>
      rw [isNew_of_split? hsplit, if_neg (by simp)]
      simp only [apply, Entry.edit, Program.get?_erase]
      by_cases hfound : found = number
      · simp [Entry.revision?, hsplit, hempty, hfound]
      · rw [Entry.revision?_of_ne hsplit hfound, if_neg hfound]
        rfl
  | @store found rest statement hsplit hbody hparse =>
      rw [isNew_of_split? hsplit, if_neg (by simp)]
      simp only [apply, Entry.edit, Program.get?_insert]
      by_cases hfound : found = number
      · simp [Entry.revision?, hsplit, hbody, hparse, hfound]
      · rw [Entry.revision?_of_ne hsplit hfound, if_neg hfound]
        rfl
  | @unreadable found rest error hsplit hbody hparse =>
      rw [isNew_of_split? hsplit, if_neg (by simp)]
      by_cases hfound : found = number
      · simp [Entry.revision?, hsplit, hbody, hparse, hfound]
      · rw [Entry.revision?_of_ne hsplit hfound]
        rfl

/-! ## Many lines -/

theorem enterAll_append (s : Session) (earlier later : List String) :
    s.enterAll (earlier ++ later) = (s.enterAll earlier).enterAll later := List.foldl_append

theorem enterAll_singleton (s : Session) (line : String) : s.enterAll [line] = (s.enter line).2 :=
  rfl

/-- What lines make of a program depends on nothing else in the session. -/
theorem program_enterAll_congr {s s' : Session} (h : s.program = s'.program)
    (lines : List String) : (s.enterAll lines).program = (s'.enterAll lines).program := by
  induction lines generalizing s s' with
  | nil => exact h
  | cons line later ih =>
      have hline : (s.enter line).2.program = (s'.enter line).2.program := by
        apply Program.eq_of_get?
        intro number
        rw [get?_enter, get?_enter, h]
      exact ih hline

/-- What is stored under a number, from the lines that were entered, the latest first. -/
theorem get?_enterAll_reverse (state : State) (budget : Budget) (number : LineNumber)
    (latest : List String) :
    ((mk .empty state budget).enterAll latest.reverse).program.get? number =
      ((latest.takeWhile fun line => !isNew line).findSome? fun line =>
        Entry.revision? number line.toList).join := by
  induction latest with
  | nil => rfl
  | cons line earlier ih =>
      rw [List.reverse_cons, enterAll_append, enterAll_singleton, get?_enter, ih]
      by_cases hnew : isNew line
      · simp [hnew]
      · cases hrevision : Entry.revision? number line.toList <;> simp [hnew, hrevision]

/-- Two lines with different numbers may be entered in either order. -/
theorem program_enterAll_swap (s : Session) {a b : String} {restA restB : List Char}
    {m n : LineNumber}
    (ha : LineNumber.split? (Text.dropLineEnd a.toList) = some (m, restA))
    (hb : LineNumber.split? (Text.dropLineEnd b.toList) = some (n, restB)) (hne : m ≠ n) :
    (s.enterAll [b, a]).program = (s.enterAll [a, b]).program := by
  have hcons (c d : String) : s.enterAll [c, d] = ((s.enter c).2.enter d).2 := rfl
  apply Program.eq_of_get?
  intro number
  simp only [hcons, get?_enter, isNew_of_split? ha, isNew_of_split? hb]
  by_cases hm : m = number
  · have hn : n ≠ number := fun heq => hne (hm.trans heq.symm)
    simp [Entry.revision?_of_ne hb hn]
  · simp [Entry.revision?_of_ne ha hm]

/-- **The last line decides.** Whatever lines are entered in a session without a program, and
whatever comes of them: of the lines since the latest `NEW`, the last one that revises a number
decides what is stored under it, and without one nothing is. The stored numbers ascend strictly, and
they are those under which something is stored. Two numbered lines in a row, with different numbers,
may be swapped without any change to the program in the end. -/
theorem program_of_history (state : State) (budget : Budget) (lines : List String) :
    (∀ number, ((mk .empty state budget).enterAll lines).program.get? number =
        ((sinceNew lines).findSome? fun line => Entry.revision? number line.toList).join) ∧
      ((mk .empty state budget).enterAll lines).program.numbers.Pairwise (· < ·) ∧
      (∀ number, number ∈ ((mk .empty state budget).enterAll lines).program.numbers ↔
        (((mk .empty state budget).enterAll lines).program.get? number).isSome) ∧
      ∀ before a b after m n restA restB, lines = before ++ a :: b :: after →
        LineNumber.split? (Text.dropLineEnd a.toList) = some (m, restA) →
        LineNumber.split? (Text.dropLineEnd b.toList) = some (n, restB) → m ≠ n →
          ((mk .empty state budget).enterAll (before ++ b :: a :: after)).program =
            ((mk .empty state budget).enterAll lines).program := by
  refine ⟨fun number => ?_, Program.numbers_pairwise _, fun number => Program.mem_numbers_iff, ?_⟩
  · have hlatest := get?_enterAll_reverse state budget number lines.reverse
    rwa [List.reverse_reverse] at hlatest
  · rintro before a b after m n restA restB rfl ha hb hne
    have hcons (c d : String) : before ++ c :: d :: after = before ++ ([c, d] ++ after) := rfl
    rw [hcons, hcons, enterAll_append, enterAll_append, enterAll_append, enterAll_append]
    exact program_enterAll_congr (program_enterAll_swap _ ha hb hne) after

/-- Lines on both sides of a `NEW`, among them a replacement, an erasure, a line for a stored number
without a statement, a failing run and no command at all. -/
def edits : List String :=
  ["40 END", " new\n", "10 PRINT 1", "20 END", "30 GOTO 50\r\n", "10\tREM", "20", "run", "30 GOTO",
    "BYE"]

/-- The line before the `NEW` is gone, the later line under 10 has replaced the earlier one, the one
under 20 is erased, and the one under 30 is as it was read. Swapping the lines for 30 and 10 comes
to the same. -/
theorem program_of_history_edits :
    let s := (mk .empty ⟨.empty, .ofInput []⟩ ⟨9, 0⟩).enterAll edits
    s.program.get? 10 = some ⟨10, "REM", .comment⟩ ∧
      s.program.get? 20 = none ∧
      s.program.get? 30 = some ⟨30, "GOTO 50", .jump 50⟩ ∧
      s.program.get? 40 = none ∧
      ((mk .empty ⟨.empty, .ofInput []⟩ ⟨9, 0⟩).enterAll
        ["40 END", " new\n", "10 PRINT 1", "20 END", "10\tREM", "30 GOTO 50\r\n", "20", "run",
          "30 GOTO", "BYE"]).program = s.program := by
  obtain ⟨hget, -, -, hswap⟩ := program_of_history ⟨.empty, .ofInput []⟩ ⟨9, 0⟩ edits
  refine ⟨?_, ?_, ?_, ?_, ?_⟩
  · rw [hget]
    decide +kernel
  · rw [hget]
    decide +kernel
  · rw [hget]
    decide +kernel
  · rw [hget]
    decide +kernel
  · exact hswap ["40 END", " new\n", "10 PRINT 1", "20 END"] "30 GOTO 50\r\n" "10\tREM"
      ["20", "run", "30 GOTO", "BYE"] 30 10 " GOTO 50".toList "\tREM".toList rfl
      (by decide +kernel) (by decide +kernel) (by decide)

end Session

end LineBasic
