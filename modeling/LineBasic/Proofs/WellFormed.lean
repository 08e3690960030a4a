import LineBasic.Program
import LineBasic.Token

/-!
# Well-formed statements

A statement is well formed if a text can say it: its names are names that a text can hold, its string
literals can stand between quotes, its number literals are finite and carry no sign, and its targets
are line numbers. Signs and nesting are not restricted.

## Main definitions

* `IsName`: a variable's name as it is stored;
* `Expr.WellFormed`, `Statement.WellFormed`, `Program.WellFormed`.
-/

namespace LineBasic

/-- A capital letter, capital letters and digits, and at most one dollar sign at the end. -/
def IsWord (text : List Char) : Prop :=
  ∃ first stem, first.isUpper ∧ (∀ c ∈ stem, c.isUpper ∨ c.isDigit) ∧
    (text = first :: stem ∨ text = first :: (stem ++ ['$']))

/-- The name of a variable: a word that is not reserved. -/
structure IsName (name : String) : Prop where
  word : IsWord name.toList
  not_keyword : ∀ k : Keyword, k.word ≠ name

/-- A text that can stand between quotes on one line. -/
def IsQuotable (content : String) : Prop := ∀ c ∈ content.toList, c ≠ '"' ∧ c ≠ '\n'

/-- A finite value whose sign bit is clear. -/
def IsUnsigned (value : Float) : Prop :=
  ∃ word, Binary64.Datum.ofFloat value = .finite false word

/-- A positive integer of at most 32 bits. -/
def LineNumber.Valid (line : LineNumber) : Prop := 1 ≤ line ∧ line ≤ LineNumber.greatest

/-- An expression that a text can say. -/
def Expr.WellFormed : Expr → Prop
  | .number value => IsUnsigned value
  | .text content => IsQuotable content
  | .variable name => IsName name
  | .sign _ operand => operand.WellFormed
  | .binary left _ right => left.WellFormed ∧ right.WellFormed

/-- A statement that a text can say. -/
def Statement.WellFormed : Statement → Prop
  | .comment | .stop => True
  | .assign name value => IsName name ∧ value.WellFormed
  | .print items => ∀ e ∈ items, e.WellFormed
  | .input name => IsName name
  | .ifJump condition target => condition.WellFormed ∧ target.Valid
  | .ifThen condition body => condition.WellFormed ∧ body.WellFormed
  | .jump target => target.Valid

/-- A line with a valid number and a statement that a text can say. -/
structure ProgramLine.WellFormed (line : ProgramLine) : Prop where
  number : line.number.Valid
  statement : line.statement.WellFormed

/-- A program of well-formed lines. -/
def Program.WellFormed (p : Program) : Prop := ∀ line ∈ p.lines, line.WellFormed

/-- A name, from its letters and digits. -/
theorem IsName.of_stem {name : String} {first : Char} {stem : List Char} (hfirst : first.isUpper)
    (hstem : stem.all fun c => c.isUpper || c.isDigit)
    (hname : name.toList = first :: stem ∨ name.toList = first :: (stem ++ ['$']))
    (hkeyword : ∀ k ∈ Keyword.all, k.word ≠ name) : IsName name where
  word := by
    refine ⟨first, stem, hfirst, fun c hc => ?_, hname⟩
    simpa using List.all_eq_true.mp hstem c hc
  not_keyword k := hkeyword k k.mem_all

/-- Whether a text can stand between quotes shows in each of its characters. -/
theorem isQuotable_of_all {content : String}
    (h : content.toList.all fun c => c ≠ '"' && c ≠ '\n') : IsQuotable content := by
  intro c hc
  simpa using List.all_eq_true.mp h c hc

/-- A reserved word is written in capital letters. -/
theorem Keyword.isWord (k : Keyword) : IsWord k.word.toList := by
  have hnonempty : k.word.toList ≠ [] := by cases k <;> decide
  have hall : k.word.toList.all Char.isUpper := by cases k <;> decide
  have hupper := List.all_eq_true.mp hall
  obtain ⟨first, stem, hword⟩ := List.exists_cons_of_ne_nil hnonempty
  rw [hword] at hupper ⊢
  refine ⟨first, stem, hupper first (by simp), ?_, .inl rfl⟩
  intro c hc
  exact .inl (hupper c (by simp [hc]))

end LineBasic
