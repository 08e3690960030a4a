import LineBasic.Number.Layout

/-!
# Values

A value is a number or a text. The kind of a variable is in its name: a name that ends in a dollar
sign holds text, every other name holds a number.

Printed numbers are positional from `0.0001` up to, and not including, `10 ^ 21`; beyond that they
have an exponent.
-/

namespace LineBasic

/-- The two kinds of values. -/
inductive Kind where
  | number | text
  deriving DecidableEq, Repr

namespace Kind

/-- The kind in a message. -/
def word : Kind → String
  | number => "numeric"
  | text => "string"

/-- The kind of the variable with a name. -/
def ofName (name : String) : Kind :=
  if name.toList.getLast? = some '$' then .text else .number

end Kind

/-- A value of the language. -/
inductive Value where
  | number (x : Float)
  | text (content : String)
  deriving DecidableEq

namespace Value

/-- The kind of a value. -/
def kind : Value → Kind
  | .number _ => .number
  | .text _ => .text

/-- The layout of printed numbers. -/
def layout : Layout := .window (-4) 21

/-- The value as it is printed. -/
def print : Value → String
  | .number x => layout.text x
  | .text content => content

/-- A truth value: one or zero. -/
def ofBool (b : Bool) : Value := .number (if b then 1 else 0)

end Value

end LineBasic
