import LineBasic.Expr.Reading
import LineBasic.Lexeme
import LineBasic.Statement

/-!
# Reading statements

A statement's first token decides what it is; a name does so only together with the equals sign
after it. After `THEN`, a number is the target of a jump exactly if it is the last token; anything
else is a statement.

Reading a text succeeds if a statement takes all of its tokens, or ends in a comment. When reading
fails, the reply still says how many tokens were taken: a reader stops at the token it cannot use,
except that a missing variable or line number takes the token that stands in its place.

## Main definitions

* `Statement.read`: reads a statement from the front of the tokens;
* `Statement.readWhole`: the same, and nothing may follow it;
* `Statement.parse`: the statement of a text.
-/

namespace LineBasic.Statement

/-- Reads a variable, an equals sign and an expression. A missing variable is blamed on `LET`,
since an assignment without it begins with one. -/
def readAssignment : (tokens : List Token) → Reply Statement tokens.length
  | .name word :: .operator .equal :: rest =>
    ((Expr.read rest).map (.assign word)).afterToken.afterToken
  | .name _ :: rest => (Reply.refusing .equalRequired rest).afterToken
  | tokens => .rejecting (.nameRequired .LET) tokens

/-- Reads the expressions after a comma, for as long as there is one. -/
def readItems (items : List Expr) (tokens : List Token) :
    Reply (List Expr) (tokens.length + 1) :=
  match tokens with
  | .comma :: rest =>
    match Expr.read rest with
    | .done item after fewer =>
      ((readItems (items ++ [item]) after).weaken fewer).afterToken.afterToken
    | .fault error after noMore => (Reply.fault error after noMore).afterToken.afterToken
  | tokens => .leaving items tokens
termination_by tokens.length

/-- Reads what `PRINT` prints: nothing, or expressions with commas between them. -/
def readPrint (tokens : List Token) : Reply Statement (tokens.length + 1) :=
  match tokens with
  | [] => .leaving (.print []) []
  | tokens =>
    match Expr.read tokens with
    | .done item after fewer =>
      (((readItems [item] after).map .print).weaken fewer).afterToken
    | .fault error after noMore => (Reply.fault error after noMore).afterToken

/-- Reads the variable after `INPUT`. -/
def readInput : (tokens : List Token) → Reply Statement tokens.length
  | .name word :: rest => .leaving (.input word) rest
  | tokens => .rejecting (.nameRequired .INPUT) tokens

/-- Reads the line number after `GOTO`. -/
def readJump : (tokens : List Token) → Reply Statement tokens.length
  | .number digits :: rest =>
    match LineNumber.ofDigits? digits.toList with
    | some target => .leaving (.jump target) rest
    | none => (Reply.refusing (.invalidLineNumber digits) rest).afterToken
  | tokens => .rejecting (.lineNumberRequired .GOTO) tokens

mutual

/-- Reads a statement from the front of the tokens. -/
def read (tokens : List Token) : Reply Statement tokens.length :=
  match tokens with
  | .keyword .REM :: rest => .leaving .comment rest
  | .keyword .LET :: rest => (readAssignment rest).afterToken
  | .name word :: .operator .equal :: rest =>
    readAssignment (.name word :: .operator .equal :: rest)
  | .name word :: rest => .refusing (.unexpectedName word) (.name word :: rest)
  | .keyword .PRINT :: rest => readPrint rest
  | .keyword .INPUT :: rest => (readInput rest).afterToken
  | .keyword .IF :: rest =>
    match Expr.read rest with
    | .done condition after fewer =>
      ((readConsequence condition after).weaken fewer).afterToken
    | .fault error after noMore => (Reply.fault error after noMore).afterToken
  | .keyword .GOTO :: rest => (readJump rest).afterToken
  | .keyword .END :: rest => .leaving .stop rest
  | tokens => .refusing (.ofTokens tokens) tokens
termination_by tokens.length

/-- Reads `THEN` and what follows it, where the condition has been read. -/
def readConsequence (condition : Expr) (tokens : List Token) :
    Reply Statement (tokens.length + 1) :=
  match tokens with
  | [.keyword .THEN, .number digits] =>
    match LineNumber.ofDigits? digits.toList with
    | some target => (Reply.leaving (.ifJump condition target) []).afterToken.afterToken
    | none =>
      (Reply.refusing (.invalidLineNumber digits) [.number digits]).afterToken.afterToken
  | .keyword .THEN :: body => ((read body).map (.ifThen condition)).afterToken.afterToken
  | tokens => (Reply.refusing .consequenceRequired tokens).afterToken
termination_by tokens.length

end

/-- A statement already read, if no token follows it or it ends in a comment. -/
def refuseTrailing (statement : Statement) (tokens : List Token) :
    Reply Statement (tokens.length + 1) :=
  match tokens with
  | [] => .leaving statement []
  | next :: rest =>
    if statement.endsInComment then .leaving statement (next :: rest)
    else (Reply.refusing (.trailing next) (next :: rest)).afterToken

/-- Reads a statement that nothing may follow, unless it ends in a comment. -/
def readWhole (tokens : List Token) : Reply Statement tokens.length :=
  match read tokens with
  | .done statement rest fewer => (refuseTrailing statement rest).weaken fewer
  | .fault error rest noMore => .fault error rest noMore

/-- The statement of a text. -/
def ofText (text : List Char) : Except SyntaxError Statement :=
  (readWhole (Token.ofText text)).result

/-- The statement of a source text, or the reason why it is none. -/
def parse (source : String) : Except SyntaxError Statement := ofText source.toList

end LineBasic.Statement
