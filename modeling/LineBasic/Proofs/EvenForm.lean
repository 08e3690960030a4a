import LineBasic.Proofs.Listing

/-!
# The even form of a line

The text of a well-formed expression or statement is tight: it begins and ends with a visible
character and holds no line feed, whatever its string literals hold. So a line with its statement's
own text for its source is one that can be listed and read back.

## Main results

* `Statement.source_tight`: a statement's text is one line, with nothing to trim;
* `ProgramLine.WellFormed.listable_even`: the even form of a line can be listed.
-/

namespace LineBasic

open Text (Tight)

/-! ## Tight texts -/

theorem IsWord.tight {text : List Char} (h : IsWord text) : Tight text := by
  obtain ⟨first, stem, hfirst, hstem, htext⟩ := h
  have hvisible : ∀ c ∈ first :: (stem ++ ['$']), Text.isBlank c = false := by
    intro c hc
    simp only [List.mem_cons, List.mem_append, List.not_mem_nil, or_false] at hc
    rcases hc with rfl | hc | rfl
    · exact Text.isBlank_of_isAlphanum (Text.isAlphanum_of_isUpper_or_isDigit (.inl hfirst))
    · exact Text.isBlank_of_isAlphanum (Text.isAlphanum_of_isUpper_or_isDigit (hstem c hc))
    · decide
  rcases htext with rfl | rfl
  · refine .of_visible (by simp) fun c hc => hvisible c ?_
    rcases List.mem_cons.mp hc with rfl | hc
    · exact List.mem_cons_self
    · exact List.mem_cons_of_mem _ (List.mem_append_left _ hc)
  · exact .of_visible (by simp) hvisible

/-- The text of an expression is one line, with nothing to trim. -/
theorem Expr.source_tight {e : Expr} (h : e.WellFormed) : Tight e.source.toList := by
  have hparens {inner : List Char} (hinner : '\n' ∉ inner) : Tight (['('] ++ (inner ++ [')'])) :=
    .between (.of_char (by decide)) hinner (.of_char (by decide))
  induction e with
  | number value =>
      obtain ⟨word, hword⟩ := h
      obtain ⟨⟨whole, fraction, hdecimal⟩, -⟩ := text_decimal hword
      exact hdecimal.tight
  | text content =>
      have hcontent : '\n' ∉ content.toList := fun hmem => (h '\n' hmem).2 rfl
      have hquotes : Tight (['"'] ++ (content.toList ++ ['"'])) :=
        .between (.of_char (by decide)) hcontent (.of_char (by decide))
      simpa [source] using hquotes
  | «variable» name => exact h.word.tight
  | sign s operand ih =>
      have hsign : '\n' ∉ s.symbol.toList := by cases s <;> decide
      have hinner : '\n' ∉ s.symbol.toList ++ operand.source.toList := by
        simp [hsign, (ih h).no_lineFeed]
      simpa [source] using hparens hinner
  | binary left op right ihleft ihright =>
      have hop : '\n' ∉ op.symbol.toList := by cases op <;> decide
      have hinner : '\n' ∉
          left.source.toList ++ ' ' :: (op.symbol.toList ++ ' ' :: right.source.toList) := by
        simp [hop, (ihleft h.1).no_lineFeed, (ihright h.2).no_lineFeed]
      simpa [source] using hparens hinner

/-- The texts of expressions with commas between them are one line too. -/
theorem Expr.items_tight {items : List Expr} (hnonempty : items ≠ [])
    (h : ∀ e ∈ items, e.WellFormed) : Tight (", ".intercalate (items.map source)).toList := by
  induction items with
  | nil => exact absurd rfl hnonempty
  | cons e later ih =>
      obtain ⟨he, hlater⟩ := List.forall_mem_cons.mp h
      cases later with
      | nil => simpa using source_tight he
      | cons next later =>
          have hcomma : '\n' ∉ [',', ' '] := by decide
          have htight := (source_tight he).between hcomma (ih (by simp) hlater)
          simpa [String.intercalate_cons_cons] using htight

/-- The text of a statement is one line, with nothing to trim. -/
theorem Statement.source_tight {s : Statement} (h : s.WellFormed) : Tight s.source.toList := by
  have hspace : '\n' ∉ [' '] := by decide
  -- What follows the keyword of a statement, up to the tight text at its end.
  have hkeyword (k : Keyword) {middle after : List Char} (hmiddle : '\n' ∉ middle)
      (hafter : Tight after) : Tight (k.word.toList ++ (middle ++ after)) :=
    k.isWord.tight.between hmiddle hafter
  have hcondition {condition : Expr} (hc : condition.WellFormed) :
      '\n' ∉ ' ' :: (condition.source.toList ++ " THEN ".toList) := by
    simp [(Expr.source_tight hc).no_lineFeed]
  induction s with
  | comment => exact Keyword.REM.isWord.tight
  | assign name value =>
      have hname : '\n' ∉ ' ' :: (name.toList ++ " = ".toList) := by
        simp [h.1.word.tight.no_lineFeed]
      simpa [source, Keyword.word] using hkeyword .LET hname (Expr.source_tight h.2)
  | print items =>
      cases items with
      | nil => exact Keyword.PRINT.isWord.tight
      | cons e later =>
          have hitems := Expr.items_tight (by simp) h
          simpa [source, Keyword.word] using hkeyword .PRINT hspace hitems
  | input name => simpa [source, Keyword.word] using hkeyword .INPUT hspace h.word.tight
  | ifJump condition target =>
      have htarget := LineNumber.toString_tight target
      simpa [source, Keyword.word] using hkeyword .IF (hcondition h.1) htarget
  | ifThen condition body ih =>
      simpa [source, Keyword.word] using hkeyword .IF (hcondition h.1) (ih h.2)
  | jump target =>
      simpa [source, Keyword.word] using hkeyword .GOTO hspace (LineNumber.toString_tight target)
  | stop => exact Keyword.END.isWord.tight

/-! ## Lines in their even form -/

/-- The line with its statement's own text as its source. -/
def ProgramLine.even (line : ProgramLine) : ProgramLine :=
  { line with source := line.statement.source }

/-- The even form of a well-formed line can be listed. -/
theorem ProgramLine.WellFormed.listable_even {line : ProgramLine} (h : line.WellFormed) :
    line.even.Listable := by
  have htight := Statement.source_tight h.statement
  have hparse := Parser.parse_source line.statement h.statement
  have hne : line.statement.source ≠ "" := fun hempty => htight.ne_nil (by rw [hempty]; rfl)
  exact ⟨⟨h.number, hne, htight.head_visible, htight.last_visible, hparse⟩, htight.no_lineFeed⟩

end LineBasic
