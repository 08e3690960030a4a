import LineBasic.Number.Layout
import LineBasic.Proofs.Grammar
import LineBasic.Proofs.Number.Pattern
import LineBasic.Proofs.Number.Rounding
import LineBasic.Proofs.Text.Letters
import LineBasic.Proofs.Text.Stops

/-!
# A printed literal is the literal

The positional text of a value consists of digits and at most one point between digits. Its digits,
read without the point, are those of the numeral it was laid out from, and so many stand behind the
point as the numeral has places; only a numeral with zeros behind its digits comes back as another
one, with the zeros among its digits, and that denotes the same value. So the text of a finite value
without a sign denotes the value.

## Main results

* `positional_decimal`: what a positional text looks like, and which numeral it is read as;
* `text_decimal`: the text of a literal is decimal, and denotes the literal's value.
-/

namespace LineBasic

/-- A text of digits, and of a point and more digits if there are decimal places. -/
structure IsDecimal (text whole fraction : List Char) : Prop where
  whole_ne_nil : whole ≠ []
  whole_digits : ∀ c ∈ whole, c.isDigit
  fraction_digits : ∀ c ∈ fraction, c.isDigit
  text_eq : text = whole ++ if fraction = [] then [] else '.' :: fraction

/-- No character of a decimal text is white space. -/
theorem IsDecimal.visible {text whole fraction : List Char} (h : IsDecimal text whole fraction) :
    ∀ c ∈ text, Text.isBlank c = false := by
  have hdigit {c : Char} (hc : c.isDigit) : Text.isBlank c = false :=
    Text.isBlank_of_isAlphanum (Text.isAlphanum_iff.mpr (.inr hc))
  intro c hc
  rw [h.text_eq] at hc
  rcases List.mem_append.mp hc with hc | hc
  · exact hdigit (h.whole_digits c hc)
  · split at hc
    · cases hc
    · rcases List.mem_cons.mp hc with rfl | hc
      · decide
      · exact hdigit (h.fraction_digits c hc)

/-- A decimal text begins with a digit, whatever follows it. -/
theorem IsDecimal.exists_cons {text whole fraction : List Char}
    (h : IsDecimal text whole fraction) (rest : List Char) :
    ∃ first later, text ++ rest = first :: later ∧ first.isDigit := by
  obtain ⟨first, later, hwhole⟩ := List.exists_cons_of_ne_nil h.whole_ne_nil
  have hfirst : first.isDigit := h.whole_digits first (hwhole ▸ List.mem_cons_self)
  rw [h.text_eq, hwhole]
  exact ⟨first, _, rfl, hfirst⟩

namespace Numeral

open Binary64 (infinity nearest)

/-! ## Digits -/

theorem isDigit_of_mem_digitChars {n : Numeral} {c : Char} (h : c ∈ n.digitChars) : c.isDigit :=
  Nat.isDigit_of_mem_toDigits (by decide) (by decide) h

theorem digitChars_ne_nil (n : Numeral) : n.digitChars ≠ [] := Nat.toDigits_ne_nil

theorem ofDigits_digitChars (n : Numeral) : ofDigits n.digitChars = n.digits :=
  Nat.ofDigitChars_ten_toDigits

/-- Zeros in front of digits do not matter. -/
theorem ofDigits_zeros_append (zeros : Nat) (digits : List Char) :
    ofDigits (List.replicate zeros '0' ++ digits) = ofDigits digits := by
  unfold ofDigits
  rw [Nat.ofDigitChars_append, Nat.ofDigitChars_replicate_zero, Nat.mul_zero]

/-- Each zero behind the digits is a factor of ten. -/
theorem ofDigits_append_zeros (digits : List Char) (zeros : Nat) :
    ofDigits (digits ++ List.replicate zeros '0') = ofDigits digits * Nat.pow 10 zeros := by
  unfold ofDigits
  rw [Nat.ofDigitChars_append, Nat.ofDigitChars_replicate_zero, Nat.mul_comm]
  rfl

private theorem isDigit_of_mem_zeros {c : Char} {zeros : Nat}
    (h : c ∈ List.replicate zeros '0') : c.isDigit := by
  rw [(List.mem_replicate.mp h).2]
  decide

/-! ## Layout -/

/-- Zeros behind the digits leave no decimal places. -/
theorem positional_of_zeros {n : Numeral} {zeros : Nat} (h : n.exponent = .ofNat zeros) :
    ∃ whole, IsDecimal n.positional whole [] ∧
      ofParts whole [] = ⟨n.digits * Nat.pow 10 zeros, 0⟩ := by
  have htext : n.positional = n.digitChars ++ List.replicate zeros '0' := by
    rw [positional, h]
  refine ⟨n.digitChars ++ List.replicate zeros '0', ?_, ?_⟩
  · refine ⟨by simp [digitChars_ne_nil n], fun c hc => ?_, by simp, by simpa using htext⟩
    rcases List.mem_append.mp hc with hc | hc
    · exact isDigit_of_mem_digitChars hc
    · exact isDigit_of_mem_zeros hc
  · simp [ofParts, ofDigits_append_zeros, ofDigits_digitChars]

/-- A point among the digits leaves as many of them behind it as there are places. -/
theorem positional_of_point {n : Numeral} {less : Nat} (h : n.exponent = .negSucc less)
    (hplaces : less + 1 < n.digitChars.length) :
    ∃ whole fraction, IsDecimal n.positional whole fraction ∧ ofParts whole fraction = n := by
  have htext : n.positional = n.digitChars.take (n.digitChars.length - (less + 1)) ++
      '.' :: n.digitChars.drop (n.digitChars.length - (less + 1)) := by
    simp [positional, h, hplaces]
  generalize hpoint : n.digitChars.length - (less + 1) = point at htext
  have hlength : (n.digitChars.drop point).length = less + 1 := by
    rw [List.length_drop]
    omega
  have hwhole : n.digitChars.take point ≠ [] := by
    intro hempty
    rcases List.take_eq_nil_iff.mp hempty with hzero | hempty
    · omega
    · exact digitChars_ne_nil n hempty
  have hfraction : n.digitChars.drop point ≠ [] := by
    intro hempty
    rw [hempty] at hlength
    cases hlength
  refine ⟨n.digitChars.take point, n.digitChars.drop point, ?_, ?_⟩
  · exact
      { whole_ne_nil := hwhole
        whole_digits := fun c hc => isDigit_of_mem_digitChars (List.mem_of_mem_take hc)
        fraction_digits := fun c hc => isDigit_of_mem_digitChars (List.mem_of_mem_drop hc)
        text_eq := by rw [htext, if_neg hfraction] }
  · rw [ofParts, List.take_append_drop, ofDigits_digitChars, hlength]
    exact congrArg (Numeral.mk n.digits) h.symm

/-- A point in front of the digits has zeros between, to fill the places. -/
theorem positional_of_leading_zeros {n : Numeral} {less : Nat} (h : n.exponent = .negSucc less)
    (hplaces : ¬less + 1 < n.digitChars.length) :
    ∃ whole fraction, IsDecimal n.positional whole fraction ∧ ofParts whole fraction = n := by
  have htext : n.positional = '0' :: '.' ::
      (List.replicate (less + 1 - n.digitChars.length) '0' ++ n.digitChars) := by
    simp [positional, h, hplaces]
  generalize hzeros : less + 1 - n.digitChars.length = zeros at htext
  have hlength : (List.replicate zeros '0' ++ n.digitChars).length = less + 1 := by
    rw [List.length_append, List.length_replicate]
    omega
  have hfraction : List.replicate zeros '0' ++ n.digitChars ≠ [] := by
    simp [digitChars_ne_nil n]
  have hzero : ∀ c ∈ List.replicate 1 '0', c.isDigit := fun _ => isDigit_of_mem_zeros
  refine ⟨['0'], List.replicate zeros '0' ++ n.digitChars, ?_, ?_⟩
  · refine ⟨by simp, hzero, fun c hc => ?_, by rw [htext, if_neg hfraction]; rfl⟩
    rcases List.mem_append.mp hc with hc | hc
    · exact isDigit_of_mem_zeros hc
    · exact isDigit_of_mem_digitChars hc
  · have hvalue : ofDigits (['0'] ++ (List.replicate zeros '0' ++ n.digitChars)) = n.digits := by
      rw [show (['0'] : List Char) = List.replicate 1 '0' from rfl, ofDigits_zeros_append,
        ofDigits_zeros_append, ofDigits_digitChars]
    rw [ofParts, hvalue, hlength]
    exact congrArg (Numeral.mk n.digits) h.symm

/-- A numeral with zeros behind its digits denotes what the digits with the zeros denote. -/
theorem word_append_zeros {n : Numeral} {zeros : Nat} (h : n.exponent = .ofNat zeros)
    (hfinite : n.word < infinity) :
    (⟨n.digits * Nat.pow 10 zeros, 0⟩ : Numeral).word = n.word := by
  obtain ⟨digits, exponent⟩ := n
  subst h
  by_cases hdigits : digits = 0
  · subst hdigits
    rw [Nat.zero_mul, word_of_no_digits, word_of_no_digits]
  · have hzeros : zeros < 310 := by
      rcases Nat.lt_or_ge zeros 310 with hlt | hge
      · exact hlt
      · have hoverflow : (⟨digits, .ofNat zeros⟩ : Numeral).word = infinity := by
          unfold Numeral.word
          dsimp only
          rw [if_neg hdigits, if_pos hge]
        exact absurd hoverflow (Nat.ne_of_lt hfinite)
    have hproduct : digits * Nat.pow 10 zeros ≠ 0 :=
      Nat.mul_ne_zero hdigits (Nat.ne_of_gt (Nat.pow_pos (by decide)))
    have hzero : (0 : Int) = Int.ofNat 0 := rfl
    rw [hzero, word_of_zeros hproduct (by decide), word_of_zeros hdigits hzeros]
    simp only [Nat.pow_eq, Nat.pow_zero, Nat.mul_one]

/-- What a positional text looks like, and that the numeral it is read as denotes the same. -/
theorem positional_decimal {n : Numeral} (hfinite : n.word < infinity) :
    ∃ whole fraction, IsDecimal n.positional whole fraction ∧
      (ofParts whole fraction).word = n.word := by
  cases h : n.exponent with
  | ofNat zeros =>
      obtain ⟨whole, hdecimal, hparts⟩ := positional_of_zeros h
      exact ⟨whole, [], hdecimal, by rw [hparts, word_append_zeros h hfinite]⟩
  | negSucc less =>
      obtain ⟨whole, fraction, hdecimal, hparts⟩ :
          ∃ whole fraction, IsDecimal n.positional whole fraction ∧ ofParts whole fraction = n := by
        by_cases hplaces : less + 1 < n.digitChars.length
        · exact positional_of_point h hplaces
        · exact positional_of_leading_zeros h hplaces
      exact ⟨whole, fraction, hdecimal, by rw [hparts]⟩

/-! ## Reading a decimal text -/

/-- A decimal text is split at its point, in front of anything that does not run it on. -/
theorem splitPoint_append {text whole fraction rest : List Char}
    (h : IsDecimal text whole fraction) (hdigit : Text.Stops Char.isDigit rest)
    (hpoint : rest.head? ≠ some '.') : splitPoint (text ++ rest) = (whole, fraction, rest) := by
  by_cases hfraction : fraction = []
  · have htext : text = whole := by rw [h.text_eq, if_pos hfraction, List.append_nil]
    unfold splitPoint
    dsimp only
    rw [htext, Text.takeWhile_run h.whole_digits hdigit, Text.dropWhile_run h.whole_digits hdigit,
      hfraction]
    split
    · exact absurd rfl hpoint
    · rfl
  · have htext : text ++ rest = whole ++ '.' :: (fraction ++ rest) := by
      rw [h.text_eq, if_neg hfraction, List.append_assoc, List.cons_append]
    have hstop : Text.Stops Char.isDigit ('.' :: (fraction ++ rest)) := Text.stops_cons.mpr rfl
    unfold splitPoint
    dsimp only
    rw [htext, Text.takeWhile_run h.whole_digits hstop, Text.dropWhile_run h.whole_digits hstop]
    simp only [Text.takeWhile_run h.fraction_digits hdigit,
      Text.dropWhile_run h.fraction_digits hdigit]

theorem splitPoint_decimal {text whole fraction : List Char} (h : IsDecimal text whole fraction) :
    splitPoint text = (whole, fraction, []) := by
  have hsplit := splitPoint_append h (Text.stops_nil _) (by simp)
  rwa [List.append_nil] at hsplit

/-- A decimal text is read as the numeral of its digits. -/
theorem ofLiteral?_decimal {text whole fraction : List Char} (h : IsDecimal text whole fraction) :
    ofLiteral? text = some (ofParts whole fraction) := by
  have hnonempty : whole ++ fraction ≠ [] := by simp [h.whole_ne_nil]
  unfold ofLiteral?
  rw [splitPoint_decimal h]
  dsimp only
  rw [if_neg hnonempty]

end Numeral

/-! ## The text of a value -/

open Binary64

/-- The text of a finite value without a sign is decimal, and denotes the value. -/
theorem text_decimal {x : Float} {word : Nat} (h : Datum.ofFloat x = .finite false word) :
    (∃ whole fraction, IsDecimal (Layout.positional.text x).toList whole fraction) ∧
      DenotesValue (Layout.positional.text x) x := by
  have hfinite : word < infinity := word_lt_of_ofFloat h
  have hword := Numeral.shortest_word hfinite
  have htext : (Layout.positional.text x).toList = (Numeral.shortest word).positional := by
    simp [Layout.text, Layout.datum, Layout.magnitude, Layout.positional, h]
  obtain ⟨whole, fraction, hdecimal, hparts⟩ := Numeral.positional_decimal (hword ▸ hfinite)
  rw [← htext] at hdecimal
  rw [hword] at hparts
  refine ⟨⟨whole, fraction, hdecimal⟩, Numeral.ofParts whole fraction,
    Numeral.ofLiteral?_decimal hdecimal, ?_, ?_⟩
  · rw [hparts]
    exact Nat.ne_of_lt hfinite
  · rw [hparts]
    exact (toFloat_ofFloat_finite h).symm

end LineBasic
