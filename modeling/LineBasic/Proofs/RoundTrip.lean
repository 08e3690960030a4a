import LineBasic.Proofs.Lexing
import LineBasic.Proofs.StatementGrammar

/-!
# A statement is read back from its text

The text of a well-formed statement has known tokens: those that the text was put together from.
They derive the statement, so that reading the text gives the statement. Two inductions carry this,
both over the expression or the statement. One is about characters: an expression's text, in front
of a text that breaks, has the expression's tokens. The other is about tokens: an expression's tokens
derive it as an operand, since every sign and every operator stands between parentheses.

## Main results

* `Expr.ofText_source`, `Statement.ofText_source`: the tokens of a text;
* `Expr.WellFormed.derives`, `Statement.WellFormed.derives`: what these tokens derive;
* `Parser.parse_source`: a statement is read back from its text.
-/

namespace LineBasic

/-! ## The tokens of a text -/

/-- The token of a sign. -/
def Sign.token : Sign → Token
  | .plus => .operator .add
  | .minus => .operator .subtract

/-- The tokens that the text of an expression is put together from. -/
def Expr.tokens : Expr → List Token
  | .number value => [.number (Layout.positional.text value)]
  | .text content => [.text content]
  | .variable name => [.name name]
  | .sign s operand => .leftParen :: s.token :: (operand.tokens ++ [.rightParen])
  | .binary left op right =>
    .leftParen :: (left.tokens ++ .operator op :: (right.tokens ++ [.rightParen]))

/-- The tokens of expressions with commas between them. -/
def Expr.listTokens : List Expr → List Token
  | [] => []
  | [e] => e.tokens
  | e :: later => e.tokens ++ .comma :: listTokens later

/-- The tokens that the text of a statement is put together from. -/
def Statement.tokens : Statement → List Token
  | .comment => [.keyword .REM]
  | .assign name value =>
    .keyword .LET :: .name name :: .operator .equal :: value.tokens
  | .print items => .keyword .PRINT :: Expr.listTokens items
  | .input name => [.keyword .INPUT, .name name]
  | .ifJump condition target =>
    .keyword .IF :: (condition.tokens ++ [.keyword .THEN, .number (toString target)])
  | .ifThen condition body => .keyword .IF :: (condition.tokens ++ .keyword .THEN :: body.tokens)
  | .jump target => [.keyword .GOTO, .number (toString target)]
  | .stop => [.keyword .END]

namespace Breaks

theorem space (rest : List Char) : Breaks (' ' :: rest) := .cons (by decide) rest

theorem comma (rest : List Char) : Breaks (',' :: rest) := .cons (by decide) rest

theorem rightParen (rest : List Char) : Breaks (')' :: rest) := .cons (by decide) rest

end Breaks

theorem Sign.ofText_symbol (s : Sign) (rest : List Char) :
    Token.ofText (s.symbol.toList ++ rest) = s.token :: Token.ofText rest := by
  cases s with
  | plus => exact Token.ofText_plus rest
  | minus => exact Token.ofText_minus rest

/-- The tokens of an expression's text, whatever breaks off behind it. -/
theorem Expr.ofText_source {e : Expr} (h : e.WellFormed) {rest : List Char}
    (hrest : Breaks rest) :
    Token.ofText (e.source.toList ++ rest) = e.tokens ++ Token.ofText rest := by
  induction e generalizing rest with
  | number value =>
      obtain ⟨word, hword⟩ := h
      obtain ⟨⟨whole, fraction, hdecimal⟩, -⟩ := text_decimal hword
      exact Token.ofText_decimal hdecimal hrest
  | text content =>
      have hstring := Token.ofText_string h rest
      simpa [source, tokens] using hstring
  | «variable» name => exact Token.ofText_name h hrest
  | sign s operand ih =>
      have hsource : (sign s operand).source.toList ++ rest =
          '(' :: (s.symbol.toList ++ (operand.source.toList ++ ')' :: rest)) := by
        simp [source]
      rw [hsource, Token.ofText_leftParen, Sign.ofText_symbol, ih h (.rightParen rest),
        Token.ofText_rightParen]
      simp [tokens]
  | binary left op right ihleft ihright =>
      have hsource : (binary left op right).source.toList ++ rest =
          '(' :: (left.source.toList ++ ' ' ::
            (op.symbol.toList ++ ' ' :: (right.source.toList ++ ')' :: rest))) := by
        simp [source]
      rw [hsource, Token.ofText_leftParen, ihleft h.1 (.space _), Token.ofText_space,
        Token.ofText_operator, ihright h.2 (.rightParen rest), Token.ofText_rightParen]
      simp [tokens]

/-- The tokens of the texts of expressions with commas between them. -/
theorem Expr.ofText_items {items : List Expr} (h : ∀ e ∈ items, e.WellFormed) :
    Token.ofText (", ".intercalate (items.map source)).toList = listTokens items := by
  induction items with
  | nil => exact Token.ofText_nil
  | cons e later ih =>
      obtain ⟨he, hlater⟩ := List.forall_mem_cons.mp h
      cases later with
      | nil => simpa [listTokens, Token.ofText_nil] using ofText_source he .nil
      | cons next later =>
          have hsource : (", ".intercalate ((e :: next :: later).map source)).toList =
              e.source.toList ++ ',' :: ' ' ::
                (", ".intercalate ((next :: later).map source)).toList := by
            simp [String.intercalate_cons_cons]
          rw [hsource, ofText_source he (.comma _), Token.ofText_comma, Token.ofText_space,
            ih hlater]
          rfl

/-- A line number is written in digits. -/
theorem LineNumber.isDecimal (line : LineNumber) :
    IsDecimal (toString line).toList (Nat.toDigits 10 line) [] := by
  refine ⟨Nat.toDigits_ne_nil, ?_, by simp, by simp⟩
  intro c hc
  exact Nat.isDigit_of_mem_toDigits (by decide) (by decide) hc

theorem LineNumber.ofText_toString (line : LineNumber) :
    Token.ofText (toString line).toList = [.number (toString line)] := by
  have hdecimal := Token.ofText_decimal (LineNumber.isDecimal line) .nil
  rwa [List.append_nil, Token.ofText_nil] at hdecimal

/-- The tokens of a conditional statement's text, up to what follows `THEN`. -/
theorem Statement.ofText_condition {condition : Expr} (h : condition.WellFormed)
    (rest : List Char) :
    Token.ofText ("IF ".toList ++ (condition.source.toList ++ (" THEN ".toList ++ rest))) =
      .keyword .IF :: (condition.tokens ++ .keyword .THEN :: Token.ofText rest) := by
  show Token.ofText (Keyword.IF.word.toList ++ ' ' :: (condition.source.toList ++
    ' ' :: (Keyword.THEN.word.toList ++ ' ' :: rest))) = _
  rw [Token.ofText_keyword .IF (.space _), Token.ofText_space, Expr.ofText_source h (.space _),
    Token.ofText_space, Token.ofText_keyword .THEN (.space _), Token.ofText_space]

/-- The tokens of a statement's text. -/
theorem Statement.ofText_source {s : Statement} (h : s.WellFormed) :
    Token.ofText s.source.toList = s.tokens := by
  induction s with
  | comment =>
      show Token.ofText (Keyword.REM.word.toList ++ []) = _
      rw [Token.ofText_keyword .REM .nil, Token.ofText_nil]
      rfl
  | assign name value =>
      have hsource : (assign name value).source.toList = Keyword.LET.word.toList ++
          ' ' :: (name.toList ++ ' ' :: (Operator.equal.symbol.toList ++
            ' ' :: (value.source.toList ++ []))) := by
        simp [source, Keyword.word, Operator.symbol]
      rw [hsource, Token.ofText_keyword .LET (.space _), Token.ofText_space,
        Token.ofText_name h.1 (.space _), Token.ofText_space, Token.ofText_operator,
        Expr.ofText_source h.2 .nil, Token.ofText_nil]
      simp [tokens]
  | print items =>
      cases items with
      | nil =>
          show Token.ofText (Keyword.PRINT.word.toList ++ []) = _
          rw [Token.ofText_keyword .PRINT .nil, Token.ofText_nil]
          rfl
      | cons e later =>
          have hsource : (print (e :: later)).source.toList = Keyword.PRINT.word.toList ++
              ' ' :: (", ".intercalate ((e :: later).map Expr.source)).toList := by
            simp [source, Keyword.word]
          rw [hsource, Token.ofText_keyword .PRINT (.space _), Token.ofText_space,
            Expr.ofText_items h]
          rfl
  | input name =>
      have hsource : (input name).source.toList =
          Keyword.INPUT.word.toList ++ ' ' :: (name.toList ++ []) := by
        simp [source, Keyword.word]
      rw [hsource, Token.ofText_keyword .INPUT (.space _), Token.ofText_space,
        Token.ofText_name h .nil, Token.ofText_nil]
      rfl
  | ifJump condition target =>
      have hsource : (ifJump condition target).source.toList = "IF ".toList ++
          (condition.source.toList ++ (" THEN ".toList ++ (toString target).toList)) := by
        simp [source]
      rw [hsource, ofText_condition h.1, LineNumber.ofText_toString]
      rfl
  | ifThen condition body ih =>
      have hsource : (ifThen condition body).source.toList = "IF ".toList ++
          (condition.source.toList ++ (" THEN ".toList ++ body.source.toList)) := by
        simp [source]
      rw [hsource, ofText_condition h.1, ih h.2]
      rfl
  | jump target =>
      have hsource : (jump target).source.toList =
          Keyword.GOTO.word.toList ++ ' ' :: (toString target).toList := by
        simp [source, Keyword.word]
      rw [hsource, Token.ofText_keyword .GOTO (.space _), Token.ofText_space,
        LineNumber.ofText_toString]
      rfl
  | stop =>
      show Token.ofText (Keyword.END.word.toList ++ []) = _
      rw [Token.ofText_keyword .END .nil, Token.ofText_nil]
      rfl

/-! ## What the tokens derive -/

/-- What stands between parentheses may stand anywhere. -/
theorem Expr.Derives.loosen_operand {tokens : List Token} {e : Expr}
    (h : Derives .operand tokens e) (k : Nat) : Derives (Stratum.ofLevel k) tokens e := by
  have hsigned : Derives (Stratum.ofLevel (k + 3)) tokens e := .member h
  exact hsigned.loosen (by omega)

theorem Expr.Derives.sign {s : Sign} {tokens : List Token} {e : Expr}
    (h : Derives .signed tokens e) : Derives .signed (s.token :: tokens) (.sign s e) := by
  cases s with
  | plus => exact .plus h
  | minus => exact .minus h

/-- The tokens of an expression derive it, and never need parentheses around them. -/
theorem Expr.WellFormed.derives {e : Expr} (h : e.WellFormed) : Derives .operand e.tokens e := by
  induction e with
  | number value =>
      obtain ⟨word, hword⟩ := h
      exact .number (text_decimal hword).2
  | text content => exact .text
  | «variable» name => exact .name
  | sign s operand ih =>
      have hsigned : Derives .signed (s.token :: operand.tokens) (.sign s operand) :=
        .sign (.member (ih h))
      have hparens := Derives.parens (hsigned.loosen (j := 0) (k := 3) (by omega))
      simpa [tokens] using hparens
  | binary left op right ihleft ihright =>
      have hleft := (ihleft h.1).loosen_operand (op.precedence - 1)
      have hright := (ihright h.2).loosen_operand op.precedence
      have hchain := Derives.operator (by omega) hleft hright
      have hparens := Derives.parens (hchain.loosen (j := 0) (by omega))
      simpa [tokens] using hparens

/-- An expression whose tokens are an operand is a comparison. -/
theorem Expr.WellFormed.derives_comparison {e : Expr} (h : e.WellFormed) :
    Derives .comparison e.tokens e := h.derives.loosen_operand 0

theorem Expr.derives_listTokens {items : List Expr} (hnonempty : items ≠ [])
    (h : ∀ e ∈ items, e.WellFormed) : DeriveList (listTokens items) items := by
  induction items with
  | nil => exact absurd rfl hnonempty
  | cons e later ih =>
      obtain ⟨he, hlater⟩ := List.forall_mem_cons.mp h
      cases later with
      | nil => exact .one he.derives_comparison
      | cons next later => exact .more he.derives_comparison (ih (by simp) hlater)

/-- The text of a valid line number denotes it. -/
theorem LineNumber.Valid.denotesLine {line : LineNumber} (h : line.Valid) :
    DenotesLine (toString line) line := by
  have hgreatest : LineNumber.greatest = 4294967295 := rfl
  have htext : (toString line).toList = Nat.toDigits 10 line := by simp
  refine ⟨?_, ?_, h.1, hgreatest ▸ h.2⟩
  · rw [htext, List.all_eq_true]
    exact (LineNumber.isDecimal line).whole_digits
  · rw [htext]
    exact Nat.ofDigitChars_ten_toDigits

/-- The tokens of a statement derive it. -/
theorem Statement.WellFormed.derives {s : Statement} (h : s.WellFormed) :
    Derives s.tokens s := by
  induction s with
  | comment => exact .comment []
  | assign name value => exact .letAssign h.2.derives_comparison
  | print items =>
      cases items with
      | nil => exact .printNothing
      | cons e later => exact .print (Expr.derives_listTokens (by simp) h)
  | input name => exact .input
  | ifJump condition target => exact .ifJump h.1.derives_comparison h.2.denotesLine
  | ifThen condition body ih => exact .ifThen h.1.derives_comparison (ih h.2)
  | jump target => exact .jump h.denotesLine
  | stop => exact .stop

/-! ## Reading the text -/

/-- The statement of the text of a well-formed statement. -/
theorem Statement.parse_of_wellFormed {s : Statement} (h : s.WellFormed) :
    Statement.parse s.source = .ok s := by
  unfold Statement.parse Statement.ofText
  rw [Statement.ofText_source h]
  exact Statement.readWhole_iff.mpr h.derives

/-- **Reading undoes writing**: a well-formed statement is read back from its text, however deep it
is nested. -/
theorem Parser.parse_source (s : Statement) (h : s.WellFormed) : parse s.source = .ok s :=
  parse_eq_ok_iff.mpr (Statement.parse_of_wellFormed h)

/-- A statement with nested conditions, signs on signs and texts that look like code. -/
def Statement.nested : Statement :=
  .ifThen (.binary (.variable "A1$") .notEqual (.text "REM é\t"))
    (.ifThen (.binary (.sign .minus (.sign .plus (.number 1.5))) .lessEqual
        (.binary (.variable "B") .multiply (.number 0)))
      (.print [.text "", .sign .minus (.variable "REMARK"), .number 2]))

theorem Statement.nested_wellFormed : Statement.nested.WellFormed := by
  have hA : IsName "A1$" :=
    @IsName.of_stem _ 'A' ['1'] (by decide) (by decide) (by decide) (by decide)
  have hB : IsName "B" := @IsName.of_stem _ 'B' [] (by decide) (by decide) (by decide) (by decide)
  have hremark : IsName "REMARK" :=
    @IsName.of_stem _ 'R' ['E', 'M', 'A', 'R', 'K'] (by decide) (by decide) (by decide) (by decide)
  have hquotable : IsQuotable "REM é\t" := isQuotable_of_all (by decide)
  have hempty : IsQuotable "" := isQuotable_of_all (by decide)
  have hzero : IsUnsigned 0 := ⟨0, by decide +kernel⟩
  have htwo : IsUnsigned 2 := ⟨0x4000000000000000, by decide +kernel⟩
  have hhalf : IsUnsigned 1.5 := ⟨0x3FF8000000000000, by decide +kernel⟩
  refine ⟨⟨hA, hquotable⟩, ⟨hhalf, hB, hzero⟩, fun e he => ?_⟩
  simp only [List.mem_cons, List.not_mem_nil, or_false] at he
  rcases he with rfl | rfl | rfl
  · exact hempty
  · exact hremark
  · exact htwo

/-- Reading undoes writing on the nested statement. -/
theorem Parser.parse_nested_source :
    Statement.nested.WellFormed ∧ parse Statement.nested.source = .ok Statement.nested :=
  ⟨Statement.nested_wellFormed, parse_source _ Statement.nested_wellFormed⟩

end LineBasic
