import LineBasic.Entry
import LineBasic.Proofs.StatementGrammar
import LineBasic.Proofs.Text.Letters
import LineBasic.Proofs.Text.Trim

/-!
# What lines ask for

A line is one of five things, and which one depends on two questions: whether a line number can be
split off it, and whether what is left is a statement. These are the constructors of `Entry.Means`,
so whatever is said of entering a line is said by cases on it.

The two questions are asked of the line with its line end taken off. The text of a command, though,
and whether a line is blank, are matters of the trimmed line, where the line end does not count; and
a numbered line is never blank, since a digit is visible.

## Main definitions

* `Entry.Means`: the five things that a line can be.

## Main results

* `LineNumber.split?_eq_some_iff`: lines with a number;
* `Entry.means_ofText`: every line is one of the five.
-/

namespace LineBasic

namespace LineNumber

/-- Digits that denote a line number are there, and are digits. -/
theorem digits_of_ofDigits? {digits : List Char} {number : LineNumber}
    (h : ofDigits? digits = some number) : digits ≠ [] ∧ ∀ c ∈ digits, c.isDigit := by
  unfold ofDigits? at h
  dsimp only at h
  split at h
  · next hvalid => exact ⟨hvalid.1, List.all_eq_true.mp hvalid.2.1⟩
  · cases h

/-- A line with a number consists of spaces, the digits of the number, and a text that the number
may precede. -/
theorem split?_eq_some_iff {line rest : List Char} {number : LineNumber} :
    split? line = some (number, rest) ↔
      ∃ indent digits, line = indent ++ digits ++ rest ∧ (∀ c ∈ indent, c = ' ') ∧
        ofDigits? digits = some number ∧ mayPrecede rest := by
  constructor
  · intro h
    have hindent := List.takeWhile_append_dropWhile (p := fun c => decide (c = ' ')) (l := line)
    have hdigits := List.takeWhile_append_dropWhile (p := Char.isDigit)
      (l := line.dropWhile fun c => decide (c = ' '))
    unfold split? at h
    dsimp only at h
    split at h
    · next hprecede =>
      obtain ⟨found, hfound, heq⟩ := Option.map_eq_some_iff.mp h
      obtain ⟨rfl, rfl⟩ := Prod.mk.inj heq
      refine ⟨line.takeWhile fun c => decide (c = ' '), _, ?_, fun c hc => ?_, hfound, hprecede⟩
      · rw [List.append_assoc, hdigits, hindent]
      · exact of_decide_eq_true (List.all_eq_true.mp List.all_takeWhile c hc)
    · cases h
  · rintro ⟨indent, digits, rfl, hindent, hnumber, hprecede⟩
    obtain ⟨hne, hdigits⟩ := digits_of_ofDigits? hnumber
    have hspaces : ∀ c ∈ indent, decide (c = ' ') := fun c hc => decide_eq_true (hindent c hc)
    have hvisible : Text.Stops (fun c => decide (c = ' ')) (digits ++ rest) := by
      refine Text.Stops.append (fun c hc => decide_eq_false ?_) hne rest
      rintro rfl
      exact absurd (hdigits ' ' (List.mem_of_mem_head? hc)) (by decide)
    have hstops : Text.Stops Char.isDigit rest := by
      intro c hc
      obtain ⟨later, rfl⟩ := List.head?_eq_some_iff.mp hc
      simp only [mayPrecede, Bool.or_eq_true, decide_eq_true_eq] at hprecede
      rcases hprecede with rfl | rfl
      · decide
      · decide
    unfold split?
    dsimp only
    rw [List.append_assoc, Text.dropWhile_run hspaces hvisible, Text.dropWhile_run hdigits hstops,
      Text.takeWhile_run hdigits hstops, if_pos hprecede, hnumber]
    rfl

/-- A line with a number is trimmed to a text that begins with a digit. -/
theorem trim_of_split? {line rest : List Char} {number : LineNumber}
    (h : split? line = some (number, rest)) :
    ∃ c later, Text.trim line = c :: later ∧ c.isDigit := by
  obtain ⟨indent, digits, rfl, hindent, hnumber, -⟩ := split?_eq_some_iff.mp h
  obtain ⟨hne, hdigits⟩ := digits_of_ofDigits? hnumber
  obtain ⟨c, others, rfl⟩ := List.exists_cons_of_ne_nil hne
  have hdigit := hdigits c List.mem_cons_self
  have hvisible := Text.isBlank_of_isAlphanum (Text.isAlphanum_iff.mpr (.inr hdigit))
  have hblank : ∀ d ∈ indent, Text.isBlank d := by
    intro d hd
    rw [hindent d hd]
    decide
  rw [List.append_assoc]
  exact ⟨c, _, Text.trim_of_visible hblank hvisible _, hdigit⟩

end LineNumber

namespace Entry

/-- The five things that a line can be. -/
inductive Means (line : List Char) : Except Error Entry → Prop where
  | blank :
      LineNumber.split? (Text.dropLineEnd line) = none → Text.trim line = [] →
        Means line (.ok .blank)
  | command :
      LineNumber.split? (Text.dropLineEnd line) = none → Text.trim line ≠ [] →
        Means line (.ok (.command (String.ofList (Text.trim line))))
  | erase {number : LineNumber} {rest : List Char} :
      LineNumber.split? (Text.dropLineEnd line) = some (number, rest) → Text.trim rest = [] →
        Means line (.ok (.erase number))
  | store {number : LineNumber} {rest : List Char} {statement : Statement} :
      LineNumber.split? (Text.dropLineEnd line) = some (number, rest) → Text.trim rest ≠ [] →
        Parser.parse (String.ofList (Text.trim rest)) = .ok statement →
          Means line (.ok (.store ⟨number, String.ofList (Text.trim rest), statement⟩))
  | unreadable {number : LineNumber} {rest : List Char} {error : SyntaxError} :
      LineNumber.split? (Text.dropLineEnd line) = some (number, rest) → Text.trim rest ≠ [] →
        Parser.parse (String.ofList (Text.trim rest)) = .error (.statement none [error]) →
          Means line (.error (.statement (some number) [error]))

/-- Every line is one of the five things. -/
theorem means_ofText (line : List Char) : Means line (ofText line) := by
  unfold ofText
  dsimp only
  rw [Text.trim_dropLineEnd]
  cases hsplit : LineNumber.split? (Text.dropLineEnd line) with
  | none =>
      split
      · next hblank => exact .blank hsplit hblank
      · next hvisible => exact .command hsplit hvisible
  | some found =>
      obtain ⟨number, rest⟩ := found
      have hvisible : Text.trim line ≠ [] := by
        obtain ⟨c, later, htrim, -⟩ := LineNumber.trim_of_split? hsplit
        rw [← Text.trim_dropLineEnd, htrim]
        exact List.cons_ne_nil c later
      have hparse := Parser.parse_eq (String.ofList (Text.trim rest))
      unfold Statement.parse at hparse
      rw [String.toList_ofList] at hparse
      rw [if_neg hvisible]
      simp only [ofBody]
      split
      · next hempty => exact .erase hsplit hempty
      · next hbody =>
        cases hstatement : Statement.ofText (Text.trim rest) with
        | ok statement =>
            rw [hstatement] at hparse
            exact .store hsplit hbody hparse
        | error error =>
            rw [hstatement] at hparse
            exact .unreadable hsplit hbody hparse

/-- A line with a number is no command. -/
theorem ne_command_of_split? {line rest : List Char} {number : LineNumber}
    (h : LineNumber.split? (Text.dropLineEnd line) = some (number, rest)) (text : String) :
    ofText line ≠ .ok (.command text) := by
  have hmeans := means_ofText line
  intro hcommand
  rw [hcommand] at hmeans
  cases hmeans with
  | command hsplit _ =>
      rw [h] at hsplit
      cases hsplit

/-- A line with a number and a text that is parsed stores the text. -/
theorem ofText_eq_store {line rest : List Char} {number : LineNumber} {text : String}
    {statement : Statement}
    (hsplit : LineNumber.split? (Text.dropLineEnd line) = some (number, rest))
    (htrim : Text.trim rest = text.toList) (hne : text.toList ≠ [])
    (hparse : Parser.parse text = .ok statement) :
    ofText line = .ok (.store ⟨number, text, statement⟩) := by
  have hmeans := means_ofText line
  generalize ofText line = entry at hmeans ⊢
  cases hmeans with
  | blank hnone _ =>
      rw [hsplit] at hnone
      cases hnone
  | command hnone _ =>
      rw [hsplit] at hnone
      cases hnone
  | erase hsome hempty =>
      rw [hsplit] at hsome
      cases hsome
      rw [htrim] at hempty
      exact absurd hempty hne
  | store hsome _ hsame =>
      rw [hsplit] at hsome
      cases hsome
      rw [htrim, String.ofList_toList] at hsame ⊢
      rw [hparse] at hsame
      cases hsame
      rfl
  | unreadable hsome _ hfault =>
      rw [hsplit] at hsome
      cases hsome
      rw [htrim, String.ofList_toList, hparse] at hfault
      cases hfault

end Entry

end LineBasic
