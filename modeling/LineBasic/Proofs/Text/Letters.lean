import LineBasic.Lexeme
import LineBasic.Text.Blank

/-!
# Letters and digits

The classes of characters as ranges of code points. Every class here is one of ASCII, so a character
that is written as a digit or a letter is in one class only, and upper case is reached by a shift.
-/

namespace LineBasic.Text

theorem isUpper_iff {c : Char} : c.isUpper ↔ 65 ≤ c.toNat ∧ c.toNat ≤ 90 := by
  show decide (65 ≤ c.toNat ∧ c.toNat ≤ 90) = true ↔ _
  exact decide_eq_true_iff

theorem isLower_iff {c : Char} : c.isLower ↔ 97 ≤ c.toNat ∧ c.toNat ≤ 122 := by
  show (decide (97 ≤ c.toNat) && decide (c.toNat ≤ 122)) = true ↔ _
  rw [Bool.and_eq_true, decide_eq_true_iff, decide_eq_true_iff]

theorem isDigit_iff {c : Char} : c.isDigit ↔ 48 ≤ c.toNat ∧ c.toNat ≤ 57 :=
  Char.isDigit_iff_toNat

theorem isAlpha_iff {c : Char} :
    c.isAlpha ↔ (65 ≤ c.toNat ∧ c.toNat ≤ 90) ∨ (97 ≤ c.toNat ∧ c.toNat ≤ 122) := by
  show (c.isUpper || c.isLower) = true ↔ _
  rw [Bool.or_eq_true, isUpper_iff, isLower_iff]

theorem isAlphanum_iff {c : Char} : c.isAlphanum ↔ c.isAlpha ∨ c.isDigit := by
  show (c.isAlpha || c.isDigit) = true ↔ _
  rw [Bool.or_eq_true]

/-- What is no small letter has no other upper case. -/
theorem toUpper_of_not_isLower {c : Char} (h : ¬c.isLower) : c.toUpper = c := by
  unfold Char.toUpper
  rw [dif_neg]
  rintro ⟨hlow, hhigh⟩
  exact h (isLower_iff.mpr ⟨UInt32.le_iff_toNat_le.mp hlow, UInt32.le_iff_toNat_le.mp hhigh⟩)

/-- What is no capital letter has no other lower case. -/
theorem toLower_of_not_isUpper {c : Char} (h : ¬c.isUpper) : c.toLower = c := by
  unfold Char.toLower
  rw [dif_neg]
  rintro ⟨hlow, hhigh⟩
  exact h (isUpper_iff.mpr ⟨UInt32.le_iff_toNat_le.mp hlow, UInt32.le_iff_toNat_le.mp hhigh⟩)

/-- Upper case is a shift of the small letters. -/
theorem toNat_toUpper {c : Char} (h : c.isLower) : c.toUpper.toNat = c.toNat - 32 := by
  have hrange := isLower_iff.mp h
  have hshift : ('A'.val - 'a'.val).toNat = 4294967264 := by decide
  unfold Char.toUpper
  rw [dif_pos ⟨UInt32.le_iff_toNat_le.mpr hrange.1, UInt32.le_iff_toNat_le.mpr hrange.2⟩]
  show (c.val + ('A'.val - 'a'.val)).toNat = c.toNat - 32
  rw [UInt32.toNat_add, hshift]
  change 97 ≤ c.val.toNat ∧ c.val.toNat ≤ 122 at hrange
  show (c.val.toNat + 4294967264) % 2 ^ 32 = c.val.toNat - 32
  omega

theorem isUpper_toUpper {c : Char} (h : c.isAlpha) : c.toUpper.isUpper := by
  rcases isAlpha_iff.mp h with hupper | hlower
  · have hself : c.toUpper = c := toUpper_of_not_isLower (by rw [isLower_iff]; omega)
    rw [hself, isUpper_iff]
    exact hupper
  · rw [isUpper_iff, toNat_toUpper (isLower_iff.mpr hlower)]
    omega

/-- What is in upper case stays as it is. -/
theorem toUpper_toUpper (c : Char) : c.toUpper.toUpper = c.toUpper := by
  by_cases hlower : c.isLower
  · have hrange := isLower_iff.mp hlower
    have hshift := toNat_toUpper hlower
    apply toUpper_of_not_isLower
    rw [isLower_iff]
    omega
  · rw [toUpper_of_not_isLower hlower, toUpper_of_not_isLower hlower]

/-- In upper case a letter or a digit is a capital letter or a digit. -/
theorem isUpper_or_isDigit_toUpper {c : Char} (h : c.isAlphanum) :
    c.toUpper.isUpper ∨ c.toUpper.isDigit := by
  rcases isAlphanum_iff.mp h with halpha | hdigit
  · exact .inl (isUpper_toUpper halpha)
  · have hrange := isDigit_iff.mp hdigit
    have hself : c.toUpper = c := toUpper_of_not_isLower (by rw [isLower_iff]; omega)
    rw [hself]
    exact .inr hdigit

/-- Capital letters and digits are in upper case already. -/
theorem toUpper_eq_self {c : Char} (h : c.isUpper ∨ c.isDigit) : c.toUpper = c := by
  apply toUpper_of_not_isLower
  rw [isLower_iff]
  rcases h with hupper | hdigit
  · have hrange := isUpper_iff.mp hupper
    omega
  · have hrange := isDigit_iff.mp hdigit
    omega

theorem isAlphanum_of_isUpper_or_isDigit {c : Char} (h : c.isUpper ∨ c.isDigit) :
    c.isAlphanum := by
  rcases h with hupper | hdigit
  · exact isAlphanum_iff.mpr (.inl (isAlpha_iff.mpr (.inl (isUpper_iff.mp hupper))))
  · exact isAlphanum_iff.mpr (.inr hdigit)

/-- A letter or a digit is no white space. -/
theorem isBlank_of_isAlphanum {c : Char} (h : c.isAlphanum) : isBlank c = false := by
  have hrange : (65 ≤ c.toNat ∧ c.toNat ≤ 90 ∨ 97 ≤ c.toNat ∧ c.toNat ≤ 122) ∨
      48 ≤ c.toNat ∧ c.toNat ≤ 57 := by
    rw [isAlphanum_iff, isAlpha_iff, isDigit_iff] at h
    exact h
  rw [Bool.eq_false_iff]
  intro hblank
  simp only [isBlank, Bool.or_eq_true, Bool.and_eq_true, decide_eq_true_eq, beq_iff_eq] at hblank
  omega

end LineBasic.Text
