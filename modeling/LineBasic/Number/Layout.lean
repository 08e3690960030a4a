import LineBasic.Number.Shortest

/-!
# Number text

The digits of a number are chosen by `Numeral.shortest`; this module lays them out. There are two
layouts, positional and scientific, and a `Layout` says which leading exponents are written
positionally. In scientific text the mantissa has a point only when it has more than one digit, and
the exponent always has a sign and at least two digits.

An infinity is written `inf`, a NaN `NaN`, and a negative zero keeps its sign. All of these are
texts that `Datum.read?` accepts.
-/

namespace LineBasic

open Binary64

namespace Numeral

/-- The decimal digits of the numeral. -/
def digitChars (n : Numeral) : List Char := Nat.toDigits 10 n.digits

/-- The exponent of the leading digit. -/
def leading (n : Numeral) : Int := n.exponent + (n.digitChars.length - 1 : Nat)

/-- Digits with zeros up to the point, or with the point among or before them. -/
def positional (n : Numeral) : List Char :=
  match n.exponent with
  | .ofNat zeros => n.digitChars ++ List.replicate zeros '0'
  | .negSucc less =>
    let places := less + 1
    let length := n.digitChars.length
    if places < length then
      n.digitChars.take (length - places) ++ '.' :: n.digitChars.drop (length - places)
    else
      '0' :: '.' :: List.replicate (places - length) '0' ++ n.digitChars

/-- The digits of an exponent, at least two. -/
def exponentDigits (magnitude : Nat) : List Char :=
  if magnitude < 10 then '0' :: Nat.toDigits 10 magnitude else Nat.toDigits 10 magnitude

/-- One digit, the others after a point, and the exponent. -/
def scientific (n : Numeral) : List Char :=
  let mantissa := match n.digitChars with
    | first :: rest@(_ :: _) => first :: '.' :: rest
    | digits => digits
  let sign := if n.leading < 0 then '-' else '+'
  mantissa ++ 'e' :: sign :: exponentDigits n.leading.natAbs

end Numeral

/-- Which leading exponents are written positionally; zero always is. -/
structure Layout where
  isPositional : Int → Bool

namespace Layout

/-- Every number positionally, however many zeros that takes. -/
def positional : Layout := ⟨fun _ => true⟩

/-- Positionally from `10 ^ least` up to and not including `10 ^ limit`. -/
def window (least limit : Int) : Layout := ⟨fun leading => least ≤ leading ∧ leading < limit⟩

/-- The text of a finite magnitude. -/
def magnitude (layout : Layout) (word : Nat) : List Char :=
  let n := Numeral.shortest word
  if n.digits = 0 || layout.isPositional n.leading then n.positional else n.scientific

/-- The text of a value. -/
def datum (layout : Layout) : Datum → List Char
  | .nan => ['N', 'a', 'N']
  | .infinite negative => (if negative then ['-'] else []) ++ ['i', 'n', 'f']
  | .finite negative word => (if negative then ['-'] else []) ++ layout.magnitude word

/-- The text of a number. -/
def text (layout : Layout) (x : Float) : String := String.ofList (layout.datum (.ofFloat x))

end Layout

end LineBasic
