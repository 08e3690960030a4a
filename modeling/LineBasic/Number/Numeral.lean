import LineBasic.Number.Binary64

/-!
# Decimal numerals

A *numeral* is a natural number of digits times a power of ten. This module says which value a
numeral denotes, and which texts are numbers at all. Two readers share that meaning: a program's
number literals, which are digits with at most one point, and the text a user types when a program
asks for a number, which may also carry a sign, an exponent, or be the name of an infinity or of a
NaN.

A numeral denotes the nearest binary64 value, exactly rounded, however many digits it has. Two
cases are decided before any power of ten is computed, so that an exponent of a few characters
cannot ask for a number of a million digits: from `10 ^ 310` on every positive numeral is infinite,
and a numeral below a quarter of the least positive value rounds to zero.

## Main definitions

* `Numeral.word`: the magnitude word of a numeral;
* `Numeral.ofLiteral?`: the digits of a program's literal;
* `Datum.read?`: the text of a number as a user may type it.
-/

namespace LineBasic

open Binary64

/-- The value `digits * 10 ^ exponent`. -/
structure Numeral where
  digits : Nat
  exponent : Int
  deriving DecidableEq, Repr

namespace Numeral

/-- The magnitude word of the binary64 value nearest to a numeral. -/
def word (n : Numeral) : Nat :=
  if n.digits = 0 then 0
  else match n.exponent with
    | .ofNat power =>
      if 310 ≤ power then infinity else nearest (n.digits * Nat.pow 10 power) 1
    | .negSucc less =>
      let power := less + 1
      if n.digits.log2 + 1077 ≤ 3 * power then 0 else nearest n.digits (Nat.pow 10 power)

/-! ## Reading -/

/-- The natural number that a list of decimal digits denotes. -/
def ofDigits (digits : List Char) : Nat := Nat.ofDigitChars 10 digits 0

/-- The digits before and after the point, and the text after them. A point is taken with the
number even when no digit follows it. -/
def splitPoint (text : List Char) : List Char × List Char × List Char :=
  let whole := text.takeWhile Char.isDigit
  match text.dropWhile Char.isDigit with
  | '.' :: rest => (whole, rest.takeWhile Char.isDigit, rest.dropWhile Char.isDigit)
  | rest => (whole, [], rest)

/-- The numeral whose digits before and after the point are given. -/
def ofParts (whole fraction : List Char) : Numeral :=
  ⟨ofDigits (whole ++ fraction), -(fraction.length : Int)⟩

/-- Reads a program's literal: digits with at most one point, and nothing after them. -/
def ofLiteral? (text : List Char) : Option Numeral :=
  match splitPoint text with
  | (whole, fraction, []) =>
    if whole ++ fraction = [] then none else some (ofParts whole fraction)
  | _ => none

/-- The magnitude of an exponent field. A field that has reached `65536` stops growing: no numeral
is told apart by what follows, unless it has as many digits. -/
def exponentMagnitude (digits : List Char) : Nat :=
  digits.foldl
    (fun sum c => if sum < 65536 then 10 * sum + Numeral.ofDigits [c] else sum) 0

/-- Reads what follows the exponent mark: an optional sign and at least one digit, to the end. -/
def readExponent? (text : List Char) : Option Int :=
  let magnitude? (digits : List Char) : Option Int :=
    if digits ≠ [] ∧ digits.all Char.isDigit then some (exponentMagnitude digits) else none
  match text with
  | '-' :: digits => (magnitude? digits).map (- ·)
  | '+' :: digits => magnitude? digits
  | digits => magnitude? digits

/-- Reads an unsigned number: digits with at most one point and at least one digit, then an
optional exponent. -/
def read? (text : List Char) : Option Numeral :=
  match splitPoint text with
  | (whole, fraction, rest) =>
    if whole ++ fraction = [] then none
    else
      let mantissa := ofParts whole fraction
      match rest with
      | [] => some mantissa
      | mark :: rest =>
        if mark.toLower = 'e' then
          (readExponent? rest).map fun power => ⟨mantissa.digits, mantissa.exponent + power⟩
        else none

end Numeral

/-! ## Numbers as typed -/

namespace Binary64.Datum

/-- The value of a numeral with a sign in front; one too large for the format is infinite. -/
def ofNumeral (negative : Bool) (n : Numeral) : Datum :=
  if n.word = infinity then .infinite negative else .finite negative n.word

/-- Reads a number without its sign. The names of infinity and of NaN may be in either case. -/
def readUnsigned? (negative : Bool) (text : List Char) : Option Datum :=
  let name := text.map Char.toLower
  if name = ['n', 'a', 'n'] then some .nan
  else if name = ['i', 'n', 'f'] ∨ name = ['i', 'n', 'f', 'i', 'n', 'i', 't', 'y'] then
    some (.infinite negative)
  else (Numeral.read? text).map (ofNumeral negative)

/-- Reads a number: an optional sign, then a numeral or the name of infinity or of NaN. -/
def read? : List Char → Option Datum
  | '-' :: text => readUnsigned? true text
  | '+' :: text => readUnsigned? false text
  | text => readUnsigned? false text

end Binary64.Datum

end LineBasic
