import LineBasic.Number.Numeral

/-!
# Line numbers

A line number is a positive integer of at most 32 bits. It is written in decimal digits only, and
leading zeros do not matter. The same rule holds for the number in front of a line and for the
target of a jump, so both go through `LineNumber.ofDigits?`.

In front of a line the number may be preceded by spaces, and it ends at a space, a tab or the end
of the line: `10PRINT` has no line number.
-/

namespace LineBasic

/-- The key of a program line. -/
abbrev LineNumber := Nat

namespace LineNumber

/-- The greatest line number: it fits in 32 bits. -/
def greatest : LineNumber := UInt32.size - 1

/-- The line number that a list of digits denotes; anything but a digit, an empty list, zero and a
number that is too large denote none. -/
def ofDigits? (digits : List Char) : Option LineNumber :=
  let number := Numeral.ofDigits digits
  if digits ≠ [] ∧ digits.all Char.isDigit ∧ 1 ≤ number ∧ number ≤ greatest then some number
  else none

/-- Whether a line number may stand directly in front of a text. -/
def mayPrecede : List Char → Bool
  | [] => true
  | c :: _ => c = ' ' || c = '\t'

/-- Splits a line into its number and the text after it, if it has a number. -/
def split? (line : List Char) : Option (LineNumber × List Char) :=
  let unindented := line.dropWhile (· = ' ')
  let rest := unindented.dropWhile Char.isDigit
  if mayPrecede rest then
    (ofDigits? (unindented.takeWhile Char.isDigit)).map fun number => (number, rest)
  else none

end LineNumber

end LineBasic
