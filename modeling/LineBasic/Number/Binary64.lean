/-!
# Binary64 words and correct rounding

A number of the language is an IEEE 754 binary64 value. Everything this library says about such a
value that is not arithmetic (which value a numeral denotes, which digits stand for a value) is
said about its *magnitude word*: the 64-bit pattern without the sign bit, as a natural number.

A finite word `w` denotes `significand w * 2 ^ scale w` *units*, where a unit is `2 ^ -1074`, the
least positive value of the format. Counting in units keeps every exponent a natural number: the
scale of a subnormal is `0`, and so is the scale of the first binade of normal numbers. Both
encodings then satisfy one equation,

    w = scale w * 2 ^ 52 + significand w

and that equation is also how a word is built. Rounding needs no case for the carry: when the
significand rounds up to `2 ^ 53`, the sum is the first word of the next binade, and when the
largest scale carries, the sum is the word of infinity.

## Main definitions

* `significand`, `scale`: the two parts of a finite word;
* `numerator`, `denominator`: its exact value;
* `nearest num den`: the word nearest to `num / den`, a tie going to the even word;
* `Datum`: a value of the format by class, with `Datum.ofFloat` and `Datum.toFloat`.
-/

namespace LineBasic.Binary64

/-- The implicit bit of a normal significand, which is also the number of words of a binade. -/
def hiddenBit : Nat := Nat.pow 2 52

/-- The magnitude word of infinity; the finite words lie below it, the NaNs above. -/
def infinity : Nat := 2047 * hiddenBit

/-- The number of units in one: a unit is `2 ^ -1074`. -/
def unitsPerOne : Nat := Nat.pow 2 1074

/-- The integral significand of a word, with the implicit bit of a normal number. -/
def significand (word : Nat) : Nat :=
  if word / hiddenBit = 0 then word % hiddenBit else hiddenBit + word % hiddenBit

/-- The weight of the significand's last bit is `2 ^ scale` units. The exponent fields `0` and `1`
share the scale `0`, which is what truncated subtraction gives. -/
def scale (word : Nat) : Nat := word / hiddenBit - 1

/-- The gap between a word's value and the next one, as a multiple of `1 / denominator`. -/
def gap (word : Nat) : Nat := Nat.pow 2 (scale word - 1074)

/-- The numerator of a finite word's exact value. -/
def numerator (word : Nat) : Nat := significand word * gap word

/-- The denominator of a finite word's exact value: a unit is `2 ^ -1074`, and of the two powers of
two in `2 ^ scale / 2 ^ 1074` the smaller one cancels. -/
def denominator (word : Nat) : Nat := Nat.pow 2 (1074 - scale word)

/-- A word is its scale and its significand added up, in both encodings. -/
theorem scale_add_significand (word : Nat) :
    scale word * hiddenBit + significand word = word := by
  have hbits : hiddenBit = 4503599627370496 := rfl
  unfold scale significand
  rw [hbits]
  split <;> omega

/-! ## Rounding -/

/-- The integer nearest to `num / den`, a tie going to the even one. -/
def roundQuotient (num den : Nat) : Nat :=
  let quotient := num / den
  let twice := 2 * (num % den)
  if twice < den then quotient
  else if den < twice then quotient + 1
  else quotient + quotient % 2

/-- The word of `num / den` units rounded at a given scale; what exceeds the largest finite word
is infinity. -/
def wordAtScale (scale num den : Nat) : Nat :=
  min infinity (scale * hiddenBit + roundQuotient num (den * Nat.pow 2 scale))

/--
The magnitude word nearest to `num / den`, a tie going to the even word.

The scale is the least one at which the significand fits in 53 bits, and not below zero. Both
bounds are the one truncated difference, since a value of at least one has the binary logarithm of
its integer part.
-/
def nearest (num den : Nat) : Nat :=
  let inUnits := num * unitsPerOne
  wordAtScale ((inUnits / den).log2 - 52) inUnits den

/-! ## Values by class -/

/-- The least word whose value carries the sign bit. -/
def signBit : Nat := Nat.pow 2 63

/-- A binary64 value by class. The sign of a NaN is not kept: no operation of the language shows
it. -/
inductive Datum where
  | nan
  | infinite (negative : Bool)
  | finite (negative : Bool) (word : Nat)
  deriving DecidableEq, Repr

/-- The class of a value, read off its bit pattern. -/
def Datum.ofFloat (x : Float) : Datum :=
  let pattern := x.toBits.toNat
  let negative : Bool := signBit ≤ pattern
  let word := pattern % signBit
  if infinity < word then .nan
  else if word = infinity then .infinite negative
  else .finite negative word

/-- The bit pattern of a value; the quiet NaN without payload stands for every NaN. -/
def Datum.pattern : Datum → Nat
  | .nan => infinity + hiddenBit / 2
  | .infinite negative => (if negative then signBit else 0) + infinity
  | .finite negative word => (if negative then signBit else 0) + word

/-- The value with a given class, sign and word. -/
def Datum.toFloat (d : Datum) : Float := Float.ofBits (UInt64.ofNat d.pattern)

end LineBasic.Binary64
