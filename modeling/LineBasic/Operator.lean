/-!
# Operators

The ten binary operators and the two signs. An operator is at once a token, a node of an expression
and an operation on values, so all three speak of this one type.

Binding strength is a number: comparisons bind least, then sums, then products. A sign binds more
than any operator, see `Sign.precedence`. Zero is left for what is no operator at all.
-/

namespace LineBasic

/-- A binary operator. -/
inductive Operator where
  | add | subtract | multiply | divide
  | equal | notEqual | less | lessEqual | greater | greaterEqual
  deriving DecidableEq, Repr

namespace Operator

/-- The operator as written. -/
def symbol : Operator → String
  | add => "+"
  | subtract => "-"
  | multiply => "*"
  | divide => "/"
  | equal => "="
  | notEqual => "<>"
  | less => "<"
  | lessEqual => "<="
  | greater => ">"
  | greaterEqual => ">="

/-- How strongly the operator binds. -/
def precedence : Operator → Nat
  | multiply | divide => 3
  | add | subtract => 2
  | equal | notEqual | less | lessEqual | greater | greaterEqual => 1

end Operator

/-- A sign in front of an operand. -/
inductive Sign where
  | plus | minus
  deriving DecidableEq, Repr

namespace Sign

/-- The sign as written. -/
def symbol : Sign → String
  | plus => "+"
  | minus => "-"

/-- A sign takes the next operand alone, whatever operator follows it. -/
def precedence : Nat := 4

end Sign

end LineBasic
