import LineBasic.RuntimeError
import LineBasic.Store.Table

/-!
# The store of variables

A variable is known by its name in upper case, so letter case does not matter, and its name fixes
its kind. Numbers and texts are kept in two tables: whatever is read from the store has the kind of
the name it is read by, with no invariant to maintain. A variable that was never set is zero, or
the empty text.

Setting a variable to a value of the other kind is refused, and changes nothing.
-/

namespace LineBasic

/-- The values of the variables that have been set. -/
structure Store where
  numbers : Table Float
  texts : Table String

namespace Store

/-- The store in which no variable has been set. -/
def empty : Store := ⟨.empty, .empty⟩

/-- The number of variables that have been set. -/
def size (s : Store) : Nat := s.numbers.size + s.texts.size

/-- The value of a variable. -/
def get (s : Store) (name : String) : Value :=
  let key := name.toUpper
  match Kind.ofName key with
  | .number => .number ((s.numbers.get? key).getD 0)
  | .text => .text ((s.texts.get? key).getD "")

/-- The store with one variable set, if the value has the variable's kind. -/
def set (s : Store) (name : String) (value : Value) : Except RuntimeError Store :=
  let key := name.toUpper
  match Kind.ofName key, value with
  | .number, .number x => .ok { s with numbers := s.numbers.set key x }
  | .text, .text content => .ok { s with texts := s.texts.set key content }
  | expected, _ => .error (.variableKind key expected)

end Store

end LineBasic
