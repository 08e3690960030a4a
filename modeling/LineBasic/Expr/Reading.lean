import LineBasic.Expr
import LineBasic.Reply

/-!
# Reading expressions

An expression is read by binding strength. `readAbove level` reads an operand and then goes on for
as long as the next operator binds more than `level`; the operand on an operator's right is read
above that operator's own strength, so operators of one strength group to the left. A sign is
followed by an operand read above every operator.

The three readers call each other on ever fewer tokens. That each of them leaves fewer than it was
given is in the type of its reply.

## Main definitions

* `Expr.literal?`: the value of a number literal;
* `Expr.read`: reads the longest expression at the front of the tokens.
-/

namespace LineBasic.Expr

/-- The value of a literal's digits, if it is finite. -/
def literal? (digits : String) : Option Float :=
  match (Numeral.ofLiteral? digits.toList).map (Binary64.Datum.ofNumeral false) with
  | some (.finite negative word) => some (Binary64.Datum.finite negative word).toFloat
  | _ => none

/-- Takes the parenthesis that closes an expression already read. -/
def closeParen (inner : Expr) (tokens : List Token) : Reply Expr (tokens.length + 1) :=
  match tokens with
  | .rightParen :: rest => (Reply.leaving inner rest).afterToken
  | tokens => (Reply.refusing .rightParenRequired tokens).afterToken

mutual

/-- Reads an operand: a literal, a variable, a signed operand, or an expression in parentheses. -/
def readOperand (tokens : List Token) : Reply Expr tokens.length :=
  match tokens with
  | .number digits :: rest =>
    match literal? digits with
    | some value => .leaving (.number value) rest
    | none => (Reply.refusing (.invalidNumber digits) rest).afterToken
  | .text content :: rest => .leaving (.text content) rest
  | .name word :: rest => .leaving (.variable word) rest
  | .operator .add :: rest =>
    ((readAbove Sign.precedence rest).map (.sign .plus)).afterToken
  | .operator .subtract :: rest =>
    ((readAbove Sign.precedence rest).map (.sign .minus)).afterToken
  | .leftParen :: rest =>
    match readAbove 0 rest with
    | .done inner after fewer => ((closeParen inner after).weaken fewer).afterToken
    | .fault error after noMore => (Reply.fault error after noMore).afterToken
  | tokens => .refusing (.ofTokens tokens) tokens
termination_by 2 * tokens.length

/-- Reads an operand and every operator after it that binds more than the level. -/
def readAbove (level : Nat) (tokens : List Token) : Reply Expr tokens.length :=
  match readOperand tokens with
  | .done left rest fewer => (readOperators level left rest).weaken fewer
  | .fault error rest noMore => .fault error rest noMore
termination_by 2 * tokens.length + 1

/-- Reads every operator that binds more than the level, with its right operand, where the left
operand has been read. There may be none, so nothing has to be taken. -/
def readOperators (level : Nat) (left : Expr) (tokens : List Token) :
    Reply Expr (tokens.length + 1) :=
  match tokens with
  | .operator op :: rest =>
    if level < op.precedence then
      match readAbove op.precedence rest with
      | .done right after fewer =>
        ((readOperators level (.binary left op right) after).weaken fewer).afterToken.afterToken
      | .fault error after noMore => (Reply.fault error after noMore).afterToken.afterToken
    else .leaving left (.operator op :: rest)
  | tokens => .leaving left tokens
termination_by 2 * tokens.length

end

/-- Reads the longest expression at the front of the tokens. -/
def read (tokens : List Token) : Reply Expr tokens.length := readAbove 0 tokens

end LineBasic.Expr
