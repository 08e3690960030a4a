import LineBasic.Number.Numeral

/-!
# The shortest digits of a number

A finite value is written with the fewest decimal digits that read back as the same value, and
among the numerals of that length with the one nearest to the value. "Reads back" is taken
literally: a candidate is accepted when `Numeral.word` of it is the word at hand. So whatever the
search finds reads back by construction, and the search only decides how long it is.

For each number of digits the value has two neighbours on the grid of that length, one on either
side. If any numeral of the length reads back, one of the two does, because the numerals that round
to a word form an interval around its value. Of two candidates the nearer wins, and a value exactly
between them goes to the upper one. Seventeen digits always suffice; the exact expansion stands
behind the search so that the function is total without that fact.

## Main definitions

* `Numeral.shortest`: the digits of a finite word.
-/

namespace LineBasic.Numeral

open Binary64

/-- Moves trailing zeros of the digits into the exponent. -/
def normalize (n : Numeral) : Numeral :=
  if n.digits ≠ 0 ∧ n.digits % 10 = 0 then
    normalize ⟨n.digits / 10, n.exponent + 1⟩
  else n
termination_by n.digits

/--
The exponent of the leading decimal digit of a positive finite word.

The value is scaled by `10 ^ 324`, which makes every positive value at least `4`. Of the scaled
integer, `1233 / 4096` times the binary logarithm is the decimal logarithm or one less, at every
size the format reaches.
-/
def leadingExponent (word : Nat) : Int :=
  let scaled : Nat := numerator word * Nat.pow 10 324 / denominator word
  let guess : Nat := scaled.log2 * 1233 / 4096
  let power : Nat := if Nat.pow 10 (guess + 1) ≤ scaled then guess + 1 else guess
  (power : Int) - 324

/-- A finite word's value measured in a power of ten: it is `num / den` times the power, and the
gap to the next value is `gap / den` times it. -/
structure Measure where
  num : Nat
  den : Nat
  gap : Nat

/-- A finite word measured in the given power of ten. -/
def measure (word : Nat) : (power : Int) → Measure
  | .ofNat power => ⟨numerator word, denominator word * Nat.pow 10 power, gap word⟩
  | .negSucc less =>
    ⟨numerator word * Nat.pow 10 (less + 1), denominator word, gap word * Nat.pow 10 (less + 1)⟩

/-- A numeral without its trailing zeros, if it reads back as the word. -/
def readsBack? (word : Nat) (n : Numeral) : Option Numeral :=
  if n.normalize.word = word then some n.normalize else none

/--
The numeral with the given last place that reads back as the word and is nearest to it, if one of
the word's two neighbours on that grid reads back. A neighbour farther away than half the gap
between words cannot read back, and is not tried.
-/
def onGrid? (word : Nat) (power : Int) : Option Numeral :=
  let ⟨num, den, gap⟩ := measure word power
  let past := num % den
  let below := if 2 * past ≤ gap then readsBack? word ⟨num / den, power⟩ else none
  let above := if 2 * (den - past) ≤ gap then readsBack? word ⟨num / den + 1, power⟩ else none
  match below, above with
  | some below, some above => if den ≤ 2 * past then some above else some below
  | some n, none | none, some n => some n
  | none, none => none

/-- The exact value of a finite word: over `2 ^ n`, a value is `5 ^ n` times as much over
`10 ^ n`. -/
def exact (word : Nat) : Numeral :=
  ⟨numerator word * Nat.pow 5 (1074 - scale word), -(1074 - scale word : Nat)⟩

/-- The shortest numeral that reads back as a finite word. -/
def shortest (word : Nat) : Numeral :=
  if word = 0 then ⟨0, 0⟩
  else
    let leading := leadingExponent word
    let found := (List.range 17).findSome? fun (places : Nat) => onGrid? word (leading - places)
    found.getD (exact word)

end LineBasic.Numeral
