import LineBasic.Proofs.Number.Literal
import LineBasic.Proofs.Text.Tight

/-!
# A printed number is the number

The text of any value, in any layout, is read as the value: a reader that takes signs, exponents and
the names of infinity and NaN finds the class, the sign and the magnitude word again. A positional
text is read as the numeral of its digits, which may have zeros moved among them. A scientific text
is read as the very numeral it was laid out from, since the digits behind the point take off the
exponent what the leading exponent added to it.

The reader stops adding up an exponent once it is large, so it has to be shown that no value has
such an exponent. Rounding decides that: a numeral with many more digits than places is infinite,
and one with many more places than digits is zero. The bounds are far from tight, and need not be
tighter.

## Main results

* `Numeral.natAbs_leading_lt`: the exponent of a positive finite value is small;
* `Numeral.read?_scientific`: a scientific text is read as its numeral;
* `Layout.read?_datum`: the text of a value is read as the value;
* `Layout.datum_tight`: the text of a value stands in one line, with nothing to trim.
-/

namespace LineBasic.Binary64

/-! ## What is too small and too large -/

theorem unitsPerOne_pos : 0 < unitsPerOne := by
  unfold unitsPerOne
  -- The power of a unit stays symbolic, so that nothing tries to compute it.
  generalize 1074 = unit
  exact pow_two_pos unit

/-- Less than half a unit is rounded to zero. -/
theorem nearest_eq_zero {num den power : Nat} (hpower : 1075 ≤ power)
    (h : num * Nat.pow 2 power < den) : nearest num den = 0 := by
  have hunits : 2 * (num * unitsPerOne) < den := by
    refine Nat.lt_of_le_of_lt ?_ h
    unfold unitsPerOne
    generalize hunit : 1074 = unit
    have hdouble : 2 * Nat.pow 2 unit = Nat.pow 2 (unit + 1) := Nat.pow_succ'.symm
    rw [Nat.mul_left_comm, hdouble]
    exact Nat.mul_le_mul_left num (Nat.pow_le_pow_right (by decide) (by omega))
  unfold nearest wordAtScale
  generalize num * unitsPerOne = units at hunits
  have hlt : units < den := by omega
  have hpow : den * Nat.pow 2 0 = den := Nat.mul_one den
  dsimp only
  rw [Nat.div_eq_of_lt hlt, Nat.log2_zero, Nat.zero_sub, Nat.zero_mul, Nat.zero_add, hpow,
    roundQuotient, Nat.div_eq_of_lt hlt, Nat.mod_eq_of_lt hlt, if_pos hunits, Nat.min_zero]

/-- A quotient beyond all finite values is infinite; this bound is far beyond them. -/
theorem nearest_eq_infinity {num den power : Nat} (hden : 0 < den) (hpower : 2100 ≤ power)
    (h : Nat.pow 2 power * den ≤ num) : nearest num den = infinity := by
  have hunits : Nat.pow 2 power ≤ num * unitsPerOne / den :=
    (Nat.le_div_iff_mul_le hden).mpr (Nat.le_trans h (Nat.le_mul_of_pos_right num unitsPerOne_pos))
  unfold nearest wordAtScale
  dsimp only
  generalize num * unitsPerOne / den = quotient at hunits
  have hlog : power ≤ quotient.log2 :=
    (Nat.le_log2 (Nat.ne_of_gt (Nat.lt_of_lt_of_le (pow_two_pos power) hunits))).mpr hunits
  have hscale : 2047 ≤ quotient.log2 - 52 := by omega
  exact Nat.min_eq_left (Nat.le_trans (Nat.mul_le_mul_right hiddenBit hscale) (Nat.le_add_right _ _))

end LineBasic.Binary64

namespace LineBasic.Numeral

open Binary64

/-! ## How far an exponent can go -/

theorem pow_two_le_pow_ten (k : Nat) : Nat.pow 2 k ≤ Nat.pow 10 k :=
  Nat.pow_le_pow_left (by decide) k

theorem pow_ten_add (j k : Nat) : Nat.pow 10 (j + k) = Nat.pow 10 j * Nat.pow 10 k :=
  Nat.pow_add 10 j k

/-- Digits lie between the powers of ten of their number. -/
theorem digits_bounds {n : Numeral} (h : n.digits ≠ 0) :
    Nat.pow 10 (n.digitChars.length - 1) ≤ n.digits ∧
      n.digits < Nat.pow 10 n.digitChars.length := by
  have hlength : 0 < n.digitChars.length := Nat.length_toDigits_pos
  refine ⟨?_, (Nat.length_toDigits_le_iff (by decide) hlength).mp (Nat.le_refl _)⟩
  by_cases hone : n.digitChars.length = 1
  · rw [hone]
    exact Nat.pos_of_ne_zero h
  · refine Nat.le_of_not_lt fun hlt => ?_
    have hshort : n.digitChars.length ≤ n.digitChars.length - 1 :=
      (Nat.length_toDigits_le_iff (by decide) (by omega)).mpr hlt
    omega

/-- Digits below a power of ten are no more than its zeros. -/
theorem length_le {n : Numeral} (h : n.digits ≠ 0) {places : Nat}
    (hlt : n.digits < Nat.pow 10 places) : n.digitChars.length ≤ places := by
  have hpow := Nat.lt_of_le_of_lt (digits_bounds h).1 hlt
  have hlength := (Nat.pow_lt_pow_iff_right (by decide)).mp hpow
  omega

/-- Zeros behind the digits are few, and so are the digits, if the value is finite. -/
theorem natAbs_leading_of_zeros {n : Numeral} {zeros : Nat} (h : n.exponent = .ofNat zeros)
    (hdigits : n.digits ≠ 0) (hfinite : n.word < infinity) : n.leading.natAbs < 65536 := by
  unfold word at hfinite
  rw [if_neg hdigits, h] at hfinite
  dsimp only at hfinite
  by_cases hmany : 310 ≤ zeros
  · rw [if_pos hmany] at hfinite
    exact absurd hfinite (Nat.lt_irrefl _)
  · rw [if_neg hmany] at hfinite
    obtain ⟨power, hpower⟩ : ∃ power, power = 2100 := ⟨2100, rfl⟩
    have hzeros : 0 < Nat.pow 10 zeros := Nat.pow_pos (by decide)
    have hupper : n.digits < Nat.pow 10 power := by
      refine Nat.lt_of_lt_of_le (Nat.lt_of_not_le fun hle => ?_) (pow_two_le_pow_ten power)
      have hlarge : Nat.pow 2 power * 1 ≤ n.digits * Nat.pow 10 zeros := Nat.mul_le_mul hle hzeros
      exact Nat.ne_of_lt hfinite
        (nearest_eq_infinity (by decide) (Nat.le_of_eq hpower.symm) hlarge)
    have hlength := length_le hdigits hupper
    unfold leading
    rw [h, Int.ofNat_eq_natCast]
    omega

/-- Decimal places are not many more than the digits if the value is positive, nor much fewer if it
is finite. -/
theorem natAbs_leading_of_places {n : Numeral} {less : Nat} (h : n.exponent = .negSucc less)
    (hdigits : n.digits ≠ 0) (hzero : n.word ≠ 0) (hfinite : n.word < infinity) :
    n.leading.natAbs < 65536 := by
  unfold word at hzero hfinite
  rw [if_neg hdigits, h] at hzero hfinite
  dsimp only at hzero hfinite
  by_cases hsmall : n.digits.log2 + 1077 ≤ 3 * (less + 1)
  · rw [if_pos hsmall] at hzero
    exact absurd rfl hzero
  · rw [if_neg hsmall] at hzero hfinite
    obtain ⟨power, hpower⟩ : ∃ power, power = 2100 := ⟨2100, rfl⟩
    have hden : 0 < Nat.pow 10 (less + 1) := Nat.pow_pos (by decide)
    have hupper : n.digits < Nat.pow 10 (power + (less + 1)) := by
      rw [pow_ten_add]
      refine Nat.lt_of_lt_of_le (Nat.lt_of_not_le fun hle => ?_)
        (Nat.mul_le_mul_right _ (pow_two_le_pow_ten power))
      exact Nat.ne_of_lt hfinite (nearest_eq_infinity hden (Nat.le_of_eq hpower.symm) hle)
    have hlower : Nat.pow 10 (less + 1) < Nat.pow 10 (n.digitChars.length + power) := by
      have hle : Nat.pow 10 (less + 1) ≤ n.digits * Nat.pow 2 power :=
        Nat.le_of_not_lt fun hlt => hzero (nearest_eq_zero (by omega) hlt)
      rw [pow_ten_add n.digitChars.length]
      refine Nat.lt_of_le_of_lt hle ?_
      exact Nat.mul_lt_mul_of_lt_of_le (digits_bounds hdigits).2 (pow_two_le_pow_ten power)
        (Nat.pow_pos (by decide))
    have hplaces := (Nat.pow_lt_pow_iff_right (by decide)).mp hlower
    have hlength := length_le hdigits hupper
    unfold leading
    rw [h, Int.negSucc_eq]
    omega

/-- The leading exponent of a positive finite value is small. -/
theorem natAbs_leading_lt {n : Numeral} (hzero : n.word ≠ 0) (hfinite : n.word < infinity) :
    n.leading.natAbs < 65536 := by
  have hdigits : n.digits ≠ 0 := fun h => hzero (if_pos h)
  cases h : n.exponent with
  | ofNat zeros => exact natAbs_leading_of_zeros h hdigits hfinite
  | negSucc less => exact natAbs_leading_of_places h hdigits hzero hfinite

/-! ## Reading an exponent -/

/-- As long as the magnitude stays small, all digits of an exponent count. -/
theorem foldl_exponent {digits : List Char} {sum : Nat}
    (h : Nat.ofDigitChars 10 digits sum < 65536) :
    digits.foldl (fun sum c => if sum < 65536 then 10 * sum + ofDigits [c] else sum) sum =
      Nat.ofDigitChars 10 digits sum := by
  induction digits generalizing sum with
  | nil => rfl
  | cons c digits ih =>
      have hle : sum ≤ Nat.ofDigitChars 10 (c :: digits) sum := by
        rw [Nat.ofDigitChars_eq_ofDigitChars_zero]
        exact Nat.le_add_right_of_le (Nat.le_mul_of_pos_left sum (Nat.pow_pos (by decide)))
      have hdigit : ofDigits [c] = c.toNat - '0'.toNat := by simp [ofDigits, Nat.ofDigitChars]
      rw [List.foldl_cons, if_pos (Nat.lt_of_le_of_lt hle h), hdigit]
      rw [Nat.ofDigitChars_cons] at h ⊢
      exact ih h

theorem isDigit_of_mem_exponentDigits {magnitude : Nat} {c : Char}
    (h : c ∈ exponentDigits magnitude) : c.isDigit := by
  have hdigits : ∀ c ∈ Nat.toDigits 10 magnitude, c.isDigit := fun _ =>
    Nat.isDigit_of_mem_toDigits (by decide) (by decide)
  unfold exponentDigits at h
  split at h
  · rcases List.mem_cons.mp h with rfl | hmem
    · decide
    · exact hdigits c hmem
  · exact hdigits c h

theorem ofDigits_exponentDigits (magnitude : Nat) :
    ofDigits (exponentDigits magnitude) = magnitude := by
  have hvalue : ofDigits (Nat.toDigits 10 magnitude) = magnitude := Nat.ofDigitChars_ten_toDigits
  unfold exponentDigits
  split
  · exact (ofDigits_zeros_append 1 _).trans hvalue
  · exact hvalue

/-- An exponent that is not too large is read back. -/
theorem readExponent?_sign {power : Int} (h : power.natAbs < 65536) :
    readExponent? ((if power < 0 then '-' else '+') :: exponentDigits power.natAbs) =
      some power := by
  have hne : exponentDigits power.natAbs ≠ [] := by
    unfold exponentDigits
    split
    · exact List.cons_ne_nil _ _
    · exact Nat.toDigits_ne_nil
  have hdigits : (exponentDigits power.natAbs).all Char.isDigit :=
    List.all_eq_true.mpr fun _ => isDigit_of_mem_exponentDigits
  have hmagnitude : exponentMagnitude (exponentDigits power.natAbs) = power.natAbs := by
    have hvalue := ofDigits_exponentDigits power.natAbs
    have hsmall : ofDigits (exponentDigits power.natAbs) < 65536 := by rwa [hvalue]
    exact (foldl_exponent hsmall).trans hvalue
  by_cases hnegative : power < 0
  · rw [if_pos hnegative]
    show Option.map (- ·) (if _ then some _ else none) = _
    rw [if_pos ⟨hne, hdigits⟩, hmagnitude, Int.ofNat_natAbs_of_nonpos (Int.le_of_lt hnegative)]
    exact congrArg some (Int.neg_neg power)
  · rw [if_neg hnegative]
    show (if _ then some _ else none) = _
    rw [if_pos ⟨hne, hdigits⟩, hmagnitude, Int.natAbs_of_nonneg (Int.not_lt.mp hnegative)]

/-! ## Reading a number -/

/-- What a scientific text consists of. -/
theorem exists_mantissa (n : Numeral) :
    ∃ mantissa whole fraction, IsDecimal mantissa whole fraction ∧
      ofParts whole fraction = ⟨n.digits, -((n.digitChars.length - 1 : Nat) : Int)⟩ ∧
      n.scientific = mantissa ++
        'e' :: (if n.leading < 0 then '-' else '+') :: exponentDigits n.leading.natAbs := by
  have hdigits : ∀ c ∈ n.digitChars, c.isDigit := fun _ => isDigit_of_mem_digitChars
  have hvalue := ofDigits_digitChars n
  have hne := digitChars_ne_nil n
  unfold scientific
  generalize n.digitChars = chars at hdigits hvalue hne
  cases chars with
  | nil => exact absurd rfl hne
  | cons first rest =>
      obtain ⟨hfirst, hrest⟩ := List.forall_mem_cons.mp hdigits
      have hwhole : ∀ c ∈ [first], c.isDigit := List.forall_mem_singleton.mpr hfirst
      refine ⟨_, [first], rest, ⟨by simp, hwhole, hrest, rfl⟩, ?_, ?_⟩
      · rw [ofParts, List.singleton_append, hvalue]
        rfl
      · cases rest with
        | nil => rfl
        | cons second more => rfl

/-- A decimal text alone is a number. -/
theorem read?_decimal {text whole fraction : List Char} (h : IsDecimal text whole fraction) :
    read? text = some (ofParts whole fraction) := by
  have hnonempty : whole ++ fraction ≠ [] := by simp [h.whole_ne_nil]
  unfold read?
  rw [splitPoint_decimal h]
  dsimp only
  rw [if_neg hnonempty]

/-- The scientific text of a numeral is read as the numeral. -/
theorem read?_scientific {n : Numeral} (h : n.leading.natAbs < 65536) :
    read? n.scientific = some n := by
  obtain ⟨mantissa, whole, fraction, hdecimal, hparts, htext⟩ := exists_mantissa n
  have hnonempty : whole ++ fraction ≠ [] := by simp [hdecimal.whole_ne_nil]
  have hmark : 'e'.toLower = 'e' := by decide
  unfold read?
  rw [htext, splitPoint_append hdecimal (Text.stops_cons.mpr (by decide)) (by simp)]
  dsimp only
  rw [if_neg hnonempty, if_pos hmark, readExponent?_sign h, hparts]
  have hexponent : -((n.digitChars.length - 1 : Nat) : Int) + n.leading = n.exponent := by
    unfold leading
    omega
  show some (Numeral.mk n.digits _) = _
  rw [hexponent]

end LineBasic.Numeral

/-! ## Texts of values -/

namespace LineBasic

open Binary64

namespace Layout

variable (layout : Layout) {word : Nat}

/-- The text of a finite magnitude is read as a numeral that denotes it. -/
theorem read?_magnitude (h : word < infinity) :
    ∃ n, Numeral.read? (layout.magnitude word) = some n ∧ n.word = word := by
  have hword := Numeral.shortest_word h
  unfold magnitude
  dsimp only
  split
  · obtain ⟨whole, fraction, hdecimal, hparts⟩ := Numeral.positional_decimal (hword.symm ▸ h)
    exact ⟨_, Numeral.read?_decimal hdecimal, hparts.trans hword⟩
  · next hscientific =>
    have hzero : word ≠ 0 := by
      rintro rfl
      exact absurd rfl hscientific
    have hleading := @Numeral.natAbs_leading_lt (Numeral.shortest word)
    rw [hword] at hleading
    exact ⟨_, Numeral.read?_scientific (hleading hzero h), hword⟩

/-- The text of a finite magnitude begins with a digit and holds no blank. -/
theorem magnitude_visible (h : word < infinity) :
    (∃ first later, layout.magnitude word = first :: later ∧ first.isDigit) ∧
      ∀ c ∈ layout.magnitude word, Text.isBlank c = false := by
  have hword := Numeral.shortest_word h
  unfold magnitude
  dsimp only
  split
  · obtain ⟨whole, fraction, hdecimal, -⟩ := Numeral.positional_decimal (hword.symm ▸ h)
    have hfirst := hdecimal.exists_cons []
    rw [List.append_nil] at hfirst
    exact ⟨hfirst, hdecimal.visible⟩
  · obtain ⟨mantissa, whole, fraction, hdecimal, -, htext⟩ :=
      (Numeral.shortest word).exists_mantissa
    rw [htext]
    refine ⟨hdecimal.exists_cons _, fun c hc => ?_⟩
    rcases List.mem_append.mp hc with hc | hc
    · exact hdecimal.visible c hc
    · rcases List.mem_cons.mp hc with rfl | hc
      · decide
      · rcases List.mem_cons.mp hc with rfl | hc
        · split <;> decide
        · exact Text.isBlank_of_isAlphanum
            (Text.isAlphanum_iff.mpr (.inr (Numeral.isDigit_of_mem_exponentDigits hc)))

end Layout

namespace Binary64.Datum

/-- No name of a value begins with a digit. -/
theorem readUnsigned?_of_isDigit {first : Char} (h : first.isDigit) (negative : Bool)
    (later : List Char) : readUnsigned? negative (first :: later) =
      (Numeral.read? (first :: later)).map (ofNumeral negative) := by
  have hlower : first.toLower = first := by
    have hrange := Text.isDigit_iff.mp h
    exact Text.toLower_of_not_isUpper (by rw [Text.isUpper_iff]; omega)
  have hname (c : Char) (hc : c.isDigit = false) : first ≠ c := by
    rintro rfl
    rw [hc] at h
    cases h
  simp [readUnsigned?, hlower, hname 'n' (by decide), hname 'i' (by decide)]

/-- A sign is read off the front. -/
theorem read?_sign {first : Char} (h : first.isDigit) (negative : Bool) (later : List Char) :
    read? ((if negative then ['-'] else []) ++ first :: later) =
      (Numeral.read? (first :: later)).map (ofNumeral negative) := by
  rw [← readUnsigned?_of_isDigit h]
  cases negative with
  | true => rfl
  | false =>
      show read? (first :: later) = _
      unfold read?
      split
      · next heq =>
        injection heq with hfirst
        exact absurd (hfirst ▸ h) (by decide)
      · next heq =>
        injection heq with hfirst
        exact absurd (hfirst ▸ h) (by decide)
      · rfl

end Binary64.Datum

namespace Layout

variable (layout : Layout)

/-- The text of a value is read as the value, sign, infinity and NaN included. -/
theorem read?_datum (x : Float) :
    Datum.read? (layout.datum (.ofFloat x)) = some (.ofFloat x) := by
  cases h : Datum.ofFloat x with
  | nan => rfl
  | infinite negative => cases negative <;> rfl
  | finite negative word =>
      have hfinite := word_lt_of_ofFloat h
      obtain ⟨⟨first, later, htext, hfirst⟩, -⟩ := layout.magnitude_visible hfinite
      obtain ⟨n, hread, hword⟩ := layout.read?_magnitude hfinite
      show Datum.read? (_ ++ layout.magnitude word) = _
      rw [htext] at hread ⊢
      rw [Datum.read?_sign hfirst, hread]
      show some (Datum.ofNumeral negative n) = _
      rw [Datum.ofNumeral, hword, if_neg (Nat.ne_of_lt hfinite)]

/-- The text of a value stands in one line, with nothing to trim. -/
theorem datum_tight (x : Float) : Text.Tight (layout.datum (.ofFloat x)) := by
  cases h : Datum.ofFloat x with
  | nan => exact .of_all (List.cons_ne_nil _ _) rfl
  | infinite negative =>
      cases negative with
      | true => exact .of_all (List.cons_ne_nil _ _) rfl
      | false => exact .of_all (List.cons_ne_nil _ _) rfl
  | finite negative word =>
      obtain ⟨⟨first, later, htext, -⟩, hvisible⟩ :=
        layout.magnitude_visible (word_lt_of_ofFloat h)
      refine .of_visible (by simp [datum, htext]) fun c hc => ?_
      rcases List.mem_append.mp hc with hc | hc
      · split at hc
        · rw [List.mem_singleton.mp hc]
          decide
        · cases hc
      · exact hvisible c hc

end Layout

end LineBasic
