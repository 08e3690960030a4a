import LineBasic.Expr
import LineBasic.LineNumber

/-!
# Statements

What one program line does. A conditional statement comes in two forms: it jumps to a line, or it
holds a statement of its own, which may again be conditional.

The text of a statement is in upper case and spaced evenly. Reading it back gives the statement,
with one loss that is intended: a comment's text is no part of the statement, and is kept only with
the stored line.
-/

namespace LineBasic

/-- A statement. -/
inductive Statement where
  | comment
  | assign (name : String) (value : Expr)
  | print (items : List Expr)
  | input (name : String)
  | ifJump (condition : Expr) (target : LineNumber)
  | ifThen (condition : Expr) (body : Statement)
  | jump (target : LineNumber)
  | stop
  deriving DecidableEq

namespace Statement

/-- The statement as it is written. -/
def source : Statement → String
  | .comment => "REM"
  | .assign name value => "LET " ++ name ++ " = " ++ value.source
  | .print [] => "PRINT"
  | .print items => "PRINT " ++ ", ".intercalate (items.map Expr.source)
  | .input name => "INPUT " ++ name
  | .ifJump condition target => "IF " ++ condition.source ++ " THEN " ++ toString target
  | .ifThen condition body => "IF " ++ condition.source ++ " THEN " ++ body.source
  | .jump target => "GOTO " ++ toString target
  | .stop => "END"

/-- Whether the statement ends in a comment, so that nothing after it matters. -/
def endsInComment : Statement → Bool
  | .comment => true
  | .ifThen _ body => body.endsInComment
  | _ => false

end Statement

end LineBasic
