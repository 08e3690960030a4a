import LineBasic.Token

/-!
# Syntax errors

Why a text is no statement. An error names its cause; the wording is in `SyntaxError.message`.
-/

namespace LineBasic

/-- The first thing wrong with a statement. -/
inductive SyntaxError where
  /-- A token that cannot stand here, or the end of the line. -/
  | unexpected (found : Option Token)
  /-- A name at the start of a statement that assigns nothing to it. -/
  | unexpectedName (name : String)
  /-- A token that belongs to no statement at all. -/
  | illegal (text : String)
  /-- The keyword has to be followed by a variable. -/
  | nameRequired (after : Keyword)
  | equalRequired
  | consequenceRequired
  | rightParenRequired
  /-- The keyword has to be followed by a line number. -/
  | lineNumberRequired (after : Keyword)
  /-- A number literal that no finite value is near to. -/
  | invalidNumber (digits : String)
  | invalidLineNumber (digits : String)
  /-- A complete statement with a token after it. -/
  | trailing (found : Token)
  deriving DecidableEq, Repr

namespace SyntaxError

/-- A token, or the end of the line, in a message. -/
def describe : Option Token → String
  | none => "end of line"
  | some token => "'" ++ token.source ++ "'"

/-- The wording of an error. -/
def message : SyntaxError → String
  | .unexpected found => "unexpected token " ++ describe found
  | .unexpectedName name => "unexpected identifier \"" ++ name ++ "\""
  | .illegal text => "illegal token: " ++ text
  | .nameRequired after => after.word ++ " requires identifier"
  | .equalRequired => "expected '=' after identifier"
  | .consequenceRequired => "THEN requires statement or line number"
  | .rightParenRequired => "expected ')'"
  | .lineNumberRequired after => after.word ++ " requires line number"
  | .invalidNumber digits => "invalid number \"" ++ digits ++ "\""
  | .invalidLineNumber digits => "invalid line number \"" ++ digits ++ "\""
  | .trailing found => "unexpected " ++ describe (some found) ++ " after end of statement"

/-- The error of a reader that can make nothing of the tokens in front of it. -/
def ofTokens : List Token → SyntaxError
  | [] => .unexpected none
  | .stray c :: _ => .illegal (Token.stray c).source
  | .unterminated :: _ => .illegal Token.unterminated.source
  | token :: _ => .unexpected (some token)

end SyntaxError

end LineBasic
