import LineBasic.Number.Shortest

/-!
# Shortest digits read back

Rounding returns a finite word whenever it is given the word's own value, in whatever fraction. The
value of a word in units is `significand * 2 ^ scale`, and the scale that rounding chooses for it is
the word's own: a normal significand has exactly 53 bits, a subnormal one has no more and is at
scale zero anyway. So the quotient to be rounded is a whole number, and nothing is rounded.

The search for the shortest digits tries numerals by reading them back, so a numeral it finds denotes
the word. If it found none, the exact expansion would be the answer, and that denotes the word by the
law of rounding.

## Main results

* `nearest_of_value`: rounding a finite word's own value returns the word;
* `shortest_word`: the shortest digits of a finite word denote it.
-/

namespace LineBasic.Binary64

/-! ## Rounding a word's own value -/

theorem pow_two_pos (k : Nat) : 0 < Nat.pow 2 k := Nat.pow_pos (by decide)

theorem pow_two_add (j k : Nat) : Nat.pow 2 (j + k) = Nat.pow 2 j * Nat.pow 2 k :=
  Nat.pow_add 2 j k

theorem significand_lt (word : Nat) : significand word < 2 * hiddenBit := by
  have hbits : hiddenBit = 4503599627370496 := rfl
  unfold significand
  rw [hbits]
  split <;> omega

/-- At a positive scale a significand has its implicit bit. -/
theorem hiddenBit_le_significand {word : Nat} (h : 0 < scale word) :
    hiddenBit ≤ significand word := by
  have hbits : hiddenBit = 4503599627370496 := rfl
  unfold scale at h
  unfold significand
  rw [hbits] at h ⊢
  split <;> omega

theorem significand_pos {word : Nat} (h : word ≠ 0) : 0 < significand word := by
  have hsum := scale_add_significand word
  by_cases hscale : 0 < scale word
  · have hhidden := hiddenBit_le_significand hscale
    have hbits : hiddenBit = 4503599627370496 := rfl
    omega
  · have hzero : scale word = 0 := by omega
    rw [hzero, Nat.zero_mul, Nat.zero_add] at hsum
    omega

theorem gap_pos (word : Nat) : 0 < gap word := pow_two_pos _

/-- The gap and the denominator are what is left of the scale on either side of a unit. -/
theorem denominator_mul_scale (word : Nat) :
    denominator word * Nat.pow 2 (scale word) = gap word * unitsPerOne := by
  have hsides : 1074 - scale word + scale word = scale word - 1074 + 1074 := by omega
  unfold denominator gap unitsPerOne
  -- The power of a unit stays symbolic, so that nothing tries to compute it.
  generalize 1074 = unit at hsides ⊢
  rw [← pow_two_add, ← pow_two_add, hsides]

/-- A fraction that is a word's value is the word's significand at its scale, in units. -/
theorem units_of_value {num den word : Nat}
    (h : num * denominator word = numerator word * den) :
    num * unitsPerOne = significand word * (den * Nat.pow 2 (scale word)) := by
  apply Nat.eq_of_mul_eq_mul_left (gap_pos word)
  calc gap word * (num * unitsPerOne)
      = num * (gap word * unitsPerOne) := Nat.mul_left_comm _ _ _
    _ = num * denominator word * Nat.pow 2 (scale word) := by
        rw [← denominator_mul_scale, Nat.mul_assoc]
    _ = significand word * gap word * den * Nat.pow 2 (scale word) := by rw [h, numerator]
    _ = gap word * (significand word * (den * Nat.pow 2 (scale word))) := by
        simp only [Nat.mul_assoc, Nat.mul_left_comm (gap word)]

/-- The scale chosen for a word's value is the word's own. -/
theorem log2_units (word : Nat) :
    (significand word * Nat.pow 2 (scale word)).log2 - 52 = scale word := by
  have hlt := significand_lt word
  have hbits : hiddenBit = 2 ^ 52 := rfl
  by_cases hscale : 0 < scale word
  · have hge := hiddenBit_le_significand hscale
    have hpow : Nat.pow 2 (scale word) = 2 ^ scale word := rfl
    have hpos : 0 < 2 ^ scale word := Nat.two_pow_pos _
    have hlog : (significand word * Nat.pow 2 (scale word)).log2 = 52 + scale word := by
      rw [hpow, Nat.log2_eq_iff (Nat.ne_of_gt (Nat.mul_pos (by omega) hpos)), Nat.pow_add]
      constructor
      · exact Nat.mul_le_mul_right _ (hbits ▸ hge)
      · rw [show 52 + scale word + 1 = 53 + scale word by omega, Nat.pow_add]
        exact Nat.mul_lt_mul_of_pos_right (by omega) hpos
    omega
  · have hzero : scale word = 0 := by omega
    rw [hzero]
    show (significand word * 1).log2 - 52 = 0
    rw [Nat.mul_one]
    by_cases hsignificand : significand word = 0
    · rw [hsignificand]
      rfl
    · have hlog : (significand word).log2 < 53 := by
        rw [Nat.log2_lt hsignificand]
        omega
      omega

/-- A whole quotient is not rounded. -/
theorem roundQuotient_mul {quotient den : Nat} (h : 0 < den) :
    roundQuotient (quotient * den) den = quotient := by
  unfold roundQuotient
  simp [Nat.mul_div_cancel _ h, h]

/-- Rounding the value of a finite word, in whatever fraction, returns the word. -/
theorem nearest_of_value {num den word : Nat} (hden : 0 < den) (hword : word < infinity)
    (h : num * denominator word = numerator word * den) : nearest num den = word := by
  have hunits := units_of_value h
  have hquotient : num * unitsPerOne / den = significand word * Nat.pow 2 (scale word) := by
    rw [hunits, Nat.mul_left_comm]
    exact Nat.mul_div_cancel_left _ hden
  unfold nearest wordAtScale
  dsimp only
  rw [hquotient, log2_units, hunits,
    roundQuotient_mul (Nat.mul_pos hden (pow_two_pos _)), scale_add_significand]
  exact Nat.min_eq_right (Nat.le_of_lt hword)

end LineBasic.Binary64

namespace LineBasic.Numeral

open Binary64

/-! ## The exact expansion -/

theorem two_mul_le_log2 {n power : Nat} (h : Nat.pow 5 power ≤ n) : 2 * power ≤ n.log2 := by
  have hpow : 2 ^ (2 * power) ≤ n := by
    rw [Nat.pow_mul]
    exact Nat.le_trans (Nat.pow_le_pow_left (by decide) power) h
  have hne : n ≠ 0 := by
    have hpos := Nat.two_pow_pos (2 * power)
    omega
  exact (Nat.le_log2 hne).mpr hpow

theorem word_of_no_digits (exponent : Int) : (⟨0, exponent⟩ : Numeral).word = 0 := if_pos rfl

/-- What a numeral with zeros behind its digits denotes. -/
theorem word_of_zeros {digits zeros : Nat} (hdigits : digits ≠ 0) (hzeros : zeros < 310) :
    (⟨digits, Int.ofNat zeros⟩ : Numeral).word = nearest (digits * Nat.pow 10 zeros) 1 := by
  unfold Numeral.word
  dsimp only
  rw [if_neg hdigits, if_neg (by omega)]

/-- What a numeral with decimal places denotes, unless it is too small. -/
theorem word_of_places {digits less : Nat} (hdigits : digits ≠ 0)
    (hlarge : 3 * (less + 1) < digits.log2 + 1077) :
    (⟨digits, Int.negSucc less⟩ : Numeral).word = nearest digits (Nat.pow 10 (less + 1)) := by
  unfold Numeral.word
  dsimp only
  rw [if_neg hdigits, if_neg (by omega)]

/-- The exact expansion of a finite word denotes it. -/
theorem exact_word {word : Nat} (hword : word ≠ 0) (hfinite : word < infinity) :
    (exact word).word = word := by
  have hnumerator : 0 < numerator word := Nat.mul_pos (significand_pos hword) (gap_pos word)
  have hplaces : 1074 - scale word ≤ 1074 := Nat.sub_le _ _
  have hdenominator : denominator word = Nat.pow 2 (1074 - scale word) := rfl
  unfold exact
  generalize 1074 - scale word = places at hplaces hdenominator
  have hdigits : numerator word * Nat.pow 5 places ≠ 0 :=
    Nat.ne_of_gt (Nat.mul_pos hnumerator (Nat.pow_pos (by decide)))
  cases places with
  | zero =>
      refine (word_of_zeros hdigits (by decide)).trans ?_
      apply nearest_of_value (by decide) hfinite
      rw [hdenominator]
      simp only [Nat.pow_eq, Nat.pow_zero, Nat.mul_one]
  | succ less =>
      have hlog := two_mul_le_log2 (Nat.le_mul_of_pos_left (Nat.pow 5 (less + 1)) hnumerator)
      refine (word_of_places hdigits (by omega)).trans ?_
      apply nearest_of_value (Nat.pow_pos (by decide)) hfinite
      rw [hdenominator, Nat.mul_assoc]
      congr 1
      exact (Nat.mul_pow 5 2 (less + 1)).symm

/-! ## The search -/

theorem readsBack?_word {word : Nat} {n found : Numeral} (h : readsBack? word n = some found) :
    found.word = word := by
  unfold readsBack? at h
  split at h
  · next hword =>
    injection h with h
    rw [← h]
    exact hword
  · cases h

/-- A numeral found on a grid denotes the word. -/
theorem onGrid?_word {word : Nat} {power : Int} {found : Numeral}
    (h : onGrid? word power = some found) : found.word = word := by
  have hbranch {test : Prop} [Decidable test] {n candidate : Numeral}
      (hcandidate : (if test then readsBack? word n else none) = some candidate) :
      candidate.word = word := by
    split at hcandidate
    · exact readsBack?_word hcandidate
    · cases hcandidate
  unfold onGrid? at h
  dsimp only at h
  split at h
  · next below above hbelow habove =>
    split at h
    · injection h with h
      exact h ▸ hbranch habove
    · injection h with h
      exact h ▸ hbranch hbelow
  · next n hbelow _ =>
    injection h with h
    exact h ▸ hbranch hbelow
  · next n _ habove =>
    injection h with h
    exact h ▸ hbranch habove
  · cases h

/-- The shortest digits of a finite word denote it. -/
theorem shortest_word {word : Nat} (hfinite : word < infinity) : (shortest word).word = word := by
  unfold shortest
  by_cases hzero : word = 0
  · rw [if_pos hzero, hzero]
    exact word_of_no_digits 0
  · rw [if_neg hzero]
    dsimp only
    cases hfound : (List.range 17).findSome? fun (places : Nat) =>
        onGrid? word (leadingExponent word - places) with
    | none => exact exact_word hzero hfinite
    | some found =>
        obtain ⟨places, _, hplaces⟩ := List.exists_of_findSome?_eq_some hfound
        exact onGrid?_word hplaces

end LineBasic.Numeral
