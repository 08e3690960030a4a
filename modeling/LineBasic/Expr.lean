import LineBasic.Number.Layout
import LineBasic.Operator

/-!
# Expressions

An expression is a literal, a variable, a signed operand, or two operands with an operator between
them. Its text puts parentheses around every sign and every operator, so that reading the text back
needs no rule about binding strength. Number literals are written positionally, whatever their
size, because the digits of a literal have no exponent.
-/

namespace LineBasic

/-- An expression. -/
inductive Expr where
  | number (value : Float)
  | text (content : String)
  | variable (name : String)
  | sign (s : Sign) (operand : Expr)
  | binary (left : Expr) (op : Operator) (right : Expr)
  deriving DecidableEq

namespace Expr

/-- The expression as it is written. -/
def source : Expr → String
  | .number value => Layout.positional.text value
  | .text content => "\"" ++ content ++ "\""
  | .variable name => name
  | .sign s operand => "(" ++ s.symbol ++ operand.source ++ ")"
  | .binary left op right => "(" ++ left.source ++ " " ++ op.symbol ++ " " ++ right.source ++ ")"

end Expr

end LineBasic
