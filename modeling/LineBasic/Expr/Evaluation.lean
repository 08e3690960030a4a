import LineBasic.Expr
import LineBasic.Store

/-!
# The value of an expression

Arithmetic and the order of numbers are those of binary64. Two values are compared for equality if
they are of one kind; every other operator wants numbers. A comparison is one if it holds and zero
if not. Both operands are evaluated, left before right, before the operator looks at either: of two
faults the left one is reported, and the operator's own last.
-/

namespace LineBasic

/-- The value of a sign in front of a value. -/
def Sign.apply : Sign → Value → Except RuntimeError Value
  | .plus, .number x => .ok (.number x)
  | .minus, .number x => .ok (.number (-x))
  | s, .text _ => .error (.operandKind s.symbol)

namespace Operator

/-- The value of an operator between two numbers. Only a divisor equal to zero is refused. -/
def applyNumbers (op : Operator) (a b : Float) : Except RuntimeError Value :=
  match op with
  | .add => .ok (.number (a + b))
  | .subtract => .ok (.number (a - b))
  | .multiply => .ok (.number (a * b))
  | .divide => if b == 0 then .error .divisionByZero else .ok (.number (a / b))
  | .equal => .ok (.ofBool (a == b))
  | .notEqual => .ok (.ofBool (a != b))
  | .less => .ok (.ofBool (a < b))
  | .lessEqual => .ok (.ofBool (a ≤ b))
  | .greater => .ok (.ofBool (a > b))
  | .greaterEqual => .ok (.ofBool (a ≥ b))

/-- The value of an operator between two texts, which can only be equal or not. -/
def applyTexts (op : Operator) (a b : String) : Except RuntimeError Value :=
  match op with
  | .equal => .ok (.ofBool (a = b))
  | .notEqual => .ok (.ofBool (a ≠ b))
  | op => .error (.operandKind op.symbol)

/-- The value of an operator between two values. -/
def apply (op : Operator) : Value → Value → Except RuntimeError Value
  | .number a, .number b => op.applyNumbers a b
  | .text a, .text b => op.applyTexts a b
  | _, _ =>
    match op with
    | .equal | .notEqual => .error .comparisonKinds
    | op => .error (.operandKind op.symbol)

end Operator

/-- The value of an expression in a store. -/
def Expr.eval (store : Store) : Expr → Except RuntimeError Value
  | .number value => .ok (.number value)
  | .text content => .ok (.text content)
  | .variable name => .ok (store.get name)
  | .sign s operand => do
    let value ← operand.eval store
    s.apply value
  | .binary left op right => do
    let a ← left.eval store
    let b ← right.eval store
    op.apply a b

end LineBasic
