import LineBasic.Proofs.Budget
import LineBasic.Proofs.Faults
import LineBasic.Proofs.Listing

/-!
# Line numbers in front of lines and behind jumps

A line number is read in two places, by two readers. In front of a line its digits are split off the
line's text; behind `GOTO` and `THEN` they are a token, and the reader of the token looks for a point
as well. Both take the digits as far as they go, and both ask `LineNumber.ofDigits?` what the digits
denote, so that the same digits are a line number in both places, or in neither. Leading zeros do not
matter, however many there are, and the bounds are those of a positive integer of 32 bits.

So the number of every line that can be stored is a target, and whatever can be stored at all can be
stored under the number of every target that is read.

## Main results

* `LineNumber.split?_iff`: lines with a number;
* `Parser.parse_jump`, `Parser.parse_condition`: digits that denote a line number are a target;
* `Parser.refuses_jump`, `Parser.refuses_condition`: other digits are none;
* `LineNumber.same_everywhere`: all of this together.
-/

namespace LineBasic

/-! ## In front of a line -/

namespace LineNumber

variable {digits : String} {number : LineNumber}

/-- A text that a line number may precede is empty or begins with a blank. -/
theorem mayPrecede_iff {text : List Char} :
    mayPrecede text ↔ ∀ c ∈ text.head?, c = ' ' ∨ c = '\t' := by
  cases text <;> simp [mayPrecede]

/-- A line with a number: spaces, digits that denote the number, and a text that is empty or begins
with a blank. -/
theorem split?_iff {line rest : List Char} :
    split? line = some (number, rest) ↔
      ∃ (indent : List Char) (digits : String), line = indent ++ digits.toList ++ rest ∧
        (∀ c ∈ indent, c = ' ') ∧ DenotesLine digits number ∧
          ∀ c ∈ rest.head?, c = ' ' ∨ c = '\t' := by
  simp only [split?_eq_some_iff, ← mayPrecede_iff, ← ofDigits?_eq_some_iff]
  constructor
  · rintro ⟨indent, digits, hline, hindent, hnumber, hprecede⟩
    rw [← String.toList_ofList (l := digits)] at hline hnumber
    exact ⟨indent, _, hline, hindent, hnumber, hprecede⟩
  · rintro ⟨indent, digits, hline, hindent, hnumber, hprecede⟩
    exact ⟨indent, _, hline, hindent, hnumber, hprecede⟩

/-- Digits whose value is zero or too large denote no line number. -/
theorem ofDigits?_eq_none (h : Numeral.ofDigits digits.toList = 0 ∨
    4294967295 < Numeral.ofDigits digits.toList) : ofDigits? digits.toList = none := by
  refine Option.eq_none_iff_forall_ne_some.mpr fun number hnumber => ?_
  obtain ⟨-, hvalue, hpositive, hbounded⟩ := ofDigits?_eq_some_iff.mp hnumber
  rw [hvalue] at h
  rcases h with hzero | hlarge
  · exact absurd hpositive (hzero ▸ Nat.not_succ_le_zero 0)
  · exact absurd hbounded (Nat.not_le_of_gt hlarge)

/-- Digits in front of a blank are split off if they denote a line number, and only then. -/
theorem split?_digits (h : ∀ c ∈ digits.toList, c.isDigit) :
    split? (digits ++ " ").toList =
      (ofDigits? digits.toList).map fun number => (number, [' ']) := by
  have hblank : Text.Stops Char.isDigit [' '] := Text.stops_cons.mpr (by decide)
  rw [String.toList_append]
  by_cases hempty : digits.toList = []
  · rw [hempty]
    rfl
  · have hvisible : Text.Stops (fun c => decide (c = ' ')) (digits.toList ++ [' ']) := by
      refine Text.Stops.append (fun c hc => decide_eq_false ?_) hempty [' ']
      rintro rfl
      exact absurd (h ' ' (List.mem_of_mem_head? hc)) (by decide)
    show split? (digits.toList ++ [' ']) = _
    unfold split?
    dsimp only
    rw [Text.dropWhile_of_stops hvisible, Text.dropWhile_run h hblank, Text.takeWhile_run h hblank]
    rfl

end LineNumber

/-! ## Behind a jump -/

/-- Digits alone are one token. -/
theorem Token.ofText_digits {digits : String} (hne : digits ≠ "")
    (h : ∀ c ∈ digits.toList, c.isDigit) : ofText digits.toList = [.number digits] := by
  have hdecimal : IsDecimal digits.toList digits.toList [] :=
    ⟨mt String.toList_eq_nil_iff.mp hne, h, by simp, by simp⟩
  have htokens := ofText_decimal hdecimal .nil
  rwa [List.append_nil, ofText_nil] at htokens

theorem DenotesLine.ofText {digits : String} {number : LineNumber} (h : DenotesLine digits number) :
    Token.ofText digits.toList = [.number digits] := by
  refine Token.ofText_digits ?_ (List.all_eq_true.mp h.decimal)
  rintro rfl
  exact absurd (h.value ▸ h.positive) (by decide)

namespace Statement

variable {digits : String}

/-- An error of a statement is the error of the whole text. -/
theorem result_readWhole_of_error {tokens : List Token} {error : SyntaxError}
    (h : (read tokens).result = .error error) : (readWhole tokens).result = .error error := by
  unfold readWhole
  generalize read tokens = reply at h
  cases reply with
  | done statement rest fewer => cases h
  | fault other rest noMore => exact h

/-- Behind a condition, the consequence decides. -/
theorem result_read_condition {rest after : List Token} {condition : Expr}
    (h : (Expr.read rest).Gives condition after) :
    (read (.keyword .IF :: rest)).result = (readConsequence condition after).result := by
  obtain ⟨fewer, hread⟩ := h
  rw [read]
  simp only [hread, Reply.result_afterToken, Reply.result_weaken]

/-- Behind `GOTO`, digits that denote no line number are refused, and so is their lack. -/
theorem exists_error_jump (hdigits : ∀ c ∈ digits.toList, c.isDigit)
    (h : LineNumber.ofDigits? digits.toList = none) :
    ∃ error, (readWhole (.keyword .GOTO :: Token.ofText digits.toList)).result = .error error := by
  by_cases hempty : digits = ""
  · subst hempty
    refine ⟨.lineNumberRequired .GOTO, result_readWhole_of_error ?_⟩
    rw [String.toList_empty, Token.ofText_nil, read, Reply.result_afterToken]
    rfl
  · refine ⟨.invalidLineNumber digits, result_readWhole_of_error ?_⟩
    rw [Token.ofText_digits hempty hdigits, read, Reply.result_afterToken, readJump, h]
    rfl

/-- The same behind a condition and `THEN`. -/
theorem exists_error_condition {tokens : List Token} {condition : Expr}
    (hcondition : Expr.Derives .comparison tokens condition)
    (hdigits : ∀ c ∈ digits.toList, c.isDigit)
    (h : LineNumber.ofDigits? digits.toList = none) :
    ∃ error, (readWhole (.keyword .IF ::
      (tokens ++ .keyword .THEN :: Token.ofText digits.toList))).result = .error error := by
  have hread (rest : List Token) : (Expr.read (tokens ++ .keyword .THEN :: rest)).Gives condition
      (.keyword .THEN :: rest) := Expr.read_complete hcondition rfl
  by_cases hempty : digits = ""
  · subst hempty
    refine ⟨.unexpected none, result_readWhole_of_error ?_⟩
    rw [String.toList_empty, Token.ofText_nil, result_read_condition (hread []), readConsequence,
      read]
    · rfl
    -- No tokens are left, so no other case of the two readers is met.
    all_goals simp
  · refine ⟨.invalidLineNumber digits, result_readWhole_of_error ?_⟩
    rw [Token.ofText_digits hempty hdigits, result_read_condition (hread _), readConsequence, h]
    rfl

end Statement

namespace Parser

variable {digits : String} {number : LineNumber}

/-- A text whose tokens are refused is refused with one error that names no line. -/
theorem exists_error {source : String}
    (h : ∃ error, (Statement.readWhole (Token.ofText source.toList)).result = .error error) :
    ∃ error, parse source = .error (.statement none [error]) := by
  obtain ⟨error, hread⟩ := h
  have hparse : Statement.parse source = .error error := hread
  exact ⟨error, by rw [parse_eq, hparse]⟩

/-- The tokens of a text behind `GOTO`. -/
theorem ofText_jump (text : String) :
    Token.ofText ("GOTO " ++ text).toList = .keyword .GOTO :: Token.ofText text.toList := by
  have hsource : ("GOTO " ++ text).toList = Keyword.GOTO.word.toList ++ ' ' :: text.toList := by
    simp [Keyword.word]
  rw [hsource, Token.ofText_keyword .GOTO (.space _), Token.ofText_space]

/-- `1` is a condition as it is printed. -/
theorem wellFormed_one : (Expr.number 1).WellFormed := ⟨0x3FF0000000000000, by decide +kernel⟩

/-- The tokens of a text behind `IF 1 THEN`. -/
theorem ofText_condition (text : String) :
    Token.ofText ("IF 1 THEN " ++ text).toList =
      .keyword .IF :: ((Expr.number 1).tokens ++ .keyword .THEN :: Token.ofText text.toList) := by
  have hone : (Expr.number 1).source = "1" := by decide +kernel
  have hsource : ("IF 1 THEN " ++ text).toList = "IF ".toList ++
      ((Expr.number 1).source.toList ++ (" THEN ".toList ++ text.toList)) := by
    simp [hone]
  rw [hsource, Statement.ofText_condition wellFormed_one]

/-- Digits behind `GOTO` that denote a line number are the target. -/
theorem parse_jump (h : DenotesLine digits number) :
    parse ("GOTO " ++ digits) = .ok (.jump number) := by
  refine parse_eq_ok_iff.mpr (Statement.readWhole_iff.mpr ?_)
  rw [ofText_jump, h.ofText]
  exact .jump h

/-- Digits behind `THEN` that denote a line number are the target. -/
theorem parse_condition (h : DenotesLine digits number) :
    parse ("IF 1 THEN " ++ digits) = .ok (.ifJump (.number 1) number) := by
  refine parse_eq_ok_iff.mpr (Statement.readWhole_iff.mpr ?_)
  rw [ofText_condition, h.ofText]
  exact .ifJump (wellFormed_one.derives_comparison) h

/-- Other digits behind `GOTO` are an error. -/
theorem refuses_jump (hdigits : ∀ c ∈ digits.toList, c.isDigit)
    (h : LineNumber.ofDigits? digits.toList = none) :
    ∃ error, parse ("GOTO " ++ digits) = .error (.statement none [error]) := by
  refine exists_error ?_
  rw [ofText_jump]
  exact Statement.exists_error_jump hdigits h

/-- Other digits behind `THEN` are an error. -/
theorem refuses_condition (hdigits : ∀ c ∈ digits.toList, c.isDigit)
    (h : LineNumber.ofDigits? digits.toList = none) :
    ∃ error, parse ("IF 1 THEN " ++ digits) = .error (.statement none [error]) := by
  refine exists_error ?_
  rw [ofText_condition]
  exact Statement.exists_error_condition (wellFormed_one.derives_comparison) hdigits h

end Parser

/-! ## Both places -/

/-- The targets of a well-formed statement are line numbers. -/
theorem Statement.WellFormed.valid_of_mem_targets {s : Statement} (h : s.WellFormed)
    {target : LineNumber} (hmem : target ∈ s.targets) : target.Valid := by
  induction s with
  | jump _ =>
      rw [List.mem_singleton.mp hmem]
      exact h
  | ifJump _ _ =>
      rw [List.mem_singleton.mp hmem]
      exact h.2
  | ifThen _ _ ih => exact ih h.2 hmem
  | _ => cases hmem

/-- A line can be stored under any other line number. -/
theorem ProgramLine.Faithful.renumber {line : ProgramLine} (h : line.Faithful)
    {number : LineNumber} (hnumber : number.Valid) :
    ProgramLine.Faithful { line with number := number } :=
  { h with number := hnumber }

namespace LineNumber

/--
**Line numbers mean the same at the start of a line and as targets**: a line has a number if it
begins with spaces, with digits of any length whose value is from `1` to `4294967295`, and with
nothing or a blank behind them. Any digits are a number in front of a blank, behind `GOTO` and
behind `THEN`, or they are one in none of these places. The number of a line that is stored is a
target as it is printed, and under a target of any statement that is parsed everything can be stored
that is stored under some number.
-/
theorem same_everywhere :
    (∀ (line rest : List Char) (number : LineNumber), split? line = some (number, rest) ↔
      ∃ (indent : List Char) (digits : String), line = indent ++ digits.toList ++ rest ∧
        (∀ c ∈ indent, c = ' ') ∧ DenotesLine digits number ∧
          ∀ c ∈ rest.head?, c = ' ' ∨ c = '\t') ∧
      (∀ digits : String, (∀ c ∈ digits.toList, c.isDigit) →
        let value := Numeral.ofDigits digits.toList
        (1 ≤ value → value ≤ 4294967295 →
          split? (digits ++ " ").toList = some (value, [' ']) ∧
            Parser.parse ("GOTO " ++ digits) = .ok (.jump value) ∧
            Parser.parse ("IF 1 THEN " ++ digits) = .ok (.ifJump (.number 1) value)) ∧
        (value = 0 ∨ 4294967295 < value →
          split? (digits ++ " ").toList = none ∧
            (∃ error, Parser.parse ("GOTO " ++ digits) = .error (.statement none [error])) ∧
            ∃ error, Parser.parse ("IF 1 THEN " ++ digits) = .error (.statement none [error]))) ∧
      (∀ (line : List Char) (stored : ProgramLine), Entry.ofText line = .ok (.store stored) →
        Parser.parse ("GOTO " ++ toString stored.number) = .ok (.jump stored.number) ∧
          Parser.parse ("IF 1 THEN " ++ toString stored.number) =
            .ok (.ifJump (.number 1) stored.number)) ∧
      ∀ (source : String) (s : Statement), Parser.parse source = .ok s → ∀ target ∈ s.targets,
        ∀ (line : List Char) (stored : ProgramLine), Entry.ofText line = .ok (.store stored) →
          Entry.ofText ((toString target).toList ++ ' ' :: stored.source.toList) =
            .ok (.store { stored with number := target }) := by
  refine ⟨fun _ _ _ => split?_iff, fun digits hdigits => ⟨fun hpositive hbounded => ?_, fun h => ?_⟩,
    fun line stored hstored => ?_, fun source s hparse target htarget line stored hstored => ?_⟩
  · have hdenotes : DenotesLine digits (Numeral.ofDigits digits.toList) :=
      ⟨List.all_eq_true.mpr hdigits, rfl, hpositive, hbounded⟩
    refine ⟨?_, Parser.parse_jump hdenotes, Parser.parse_condition hdenotes⟩
    rw [split?_digits hdigits, ofDigits?_eq_some_iff.mpr hdenotes]
    rfl
  · have hnone := ofDigits?_eq_none h
    refine ⟨?_, Parser.refuses_jump hdigits hnone, Parser.refuses_condition hdigits hnone⟩
    rw [split?_digits hdigits, hnone]
    rfl
  · have hdenotes := (Entry.storesOnly_faithful line stored hstored).number.denotesLine
    exact ⟨Parser.parse_jump hdenotes, Parser.parse_condition hdenotes⟩
  · have hvalid := (Parser.wellFormed_of_parse hparse).valid_of_mem_targets htarget
    have hfaithful := (Entry.storesOnly_faithful line stored hstored).renumber hvalid
    have hlisted := Entry.ofText_listed hfaithful
    unfold ProgramLine.listedText at hlisted
    exact hlisted

/-- Leading zeros change nothing, `2 ^ 32` is a number nowhere, and the line that is stored under
`20` is stored again under the target of another. -/
theorem same_everywhere_zeros :
    (split? ("00010" ++ " ").toList = some (10, [' ']) ∧
      Parser.parse ("GOTO " ++ "00010") = .ok (.jump 10)) ∧
      split? ("4294967296" ++ " ").toList = none ∧
      Entry.ofText "  020 END".toList = .ok (.store ⟨20, "END", .stop⟩) ∧
      Parser.parse ("IF 1 THEN " ++ toString 20) = .ok (.ifJump (.number 1) 20) ∧
      Entry.ofText ((toString 10).toList ++ ' ' :: "END".toList) =
        .ok (.store ⟨10, "END", .stop⟩) := by
  obtain ⟨-, hdigits, hstored, htargets⟩ := same_everywhere
  have hzeros := (hdigits "00010" (List.all_eq_true.mp rfl)).1 (by decide) (by decide)
  have hlarge := (hdigits "4294967296" (List.all_eq_true.mp rfl)).2 (.inr (by decide))
  have hentry : Entry.ofText "  020 END".toList = .ok (.store ⟨20, "END", .stop⟩) := by
    decide +kernel
  have hjump : Parser.parse ("GOTO " ++ "00010") = .ok (.jump 10) := hzeros.2.1
  have htarget : 10 ∈ (Statement.jump 10).targets := List.mem_singleton.mpr rfl
  have hagain := htargets _ _ hjump 10 htarget _ _ hentry
  exact ⟨⟨hzeros.1, hjump⟩, hlarge.1, hentry, (hstored _ _ hentry).2, hagain⟩

end LineNumber

end LineBasic
