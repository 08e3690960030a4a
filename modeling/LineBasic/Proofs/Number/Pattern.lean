import LineBasic.Number.Numeral

/-!
# A value is its bit pattern

The classes of `Binary64.Datum` are read off a value's bit pattern and written back as one. Nothing
is lost on the way: the library's floats are bit patterns in which every NaN has the one canonical
pattern, and unpacking such a pattern and packing the parts gives the pattern again.

The parts of a pattern are a sign bit, an exponent field and a mantissa field. A normal value's
mantissa is unpacked with its implicit bit, which packing drops again; a subnormal one has none, and
this is what its mantissa's size tells apart.

## Main results

* `ofBits_toBits`: a float is the float of its own pattern;
* `toFloat_ofFloat`: a value is the value of its class;
* `ofFloat_toFloat_finite`: a finite magnitude word is the word of its value.
-/

namespace LineBasic.Binary64

open Float.Model (Format UnpackedFloat)
open Float.Model.UnpackedFloat

/-! ## Packing the parts of a pattern -/

/-- The three fields of a pattern, put together. -/
theorem packComponents_fields (b : BitVec Format.binary64.numBits) :
    packComponents .binary64 (UnpackedFloat.Sign.ofBitVec (unpackSign b)) (unpackExponent b)
      (unpackMantissa b) = b := by
  have hsign : (UnpackedFloat.Sign.ofBitVec (unpackSign b)).toBitVec = unpackSign b := by
    generalize unpackSign b = sign
    revert sign
    decide
  unfold packComponents
  rw [hsign]
  apply BitVec.eq_of_getLsbD_eq
  intro i hi
  unfold unpackSign unpackExponent unpackMantissa
  simp only [BitVec.getLsbD_append,
    BitVec.getLsbD_cast, BitVec.getLsbD_extractLsb]
  by_cases hmantissa : i < 52
  · simp [hmantissa]
  · by_cases hexponent : i < 63
    · have hfield : i - 52 < 11 := by omega
      have hindex : 52 + (i - 52) = i := by omega
      simp [hmantissa, hfield, hindex]
    · have hwidth : i < 64 := hi
      obtain rfl : i = 63 := by omega
      simp
      rfl

/-- The fields of a pattern with other fields in their place. -/
private theorem packComponents_eq {b : BitVec Format.binary64.numBits} {exponent : BitVec 11}
    {mantissa : BitVec 52} (hexponent : unpackExponent b = exponent)
    (hmantissa : unpackMantissa b = mantissa) :
    packComponents .binary64 (UnpackedFloat.Sign.ofBitVec (unpackSign b)) exponent mantissa
      = b := by
  subst hexponent hmantissa
  exact packComponents_fields b

/-- A subnormal value is packed with the least exponent field. -/
theorem pack_subnormal (sign : UnpackedFloat.Sign) (mantissa : BitVec 52) (h : 0 < mantissa.toNat) :
    pack .binary64 (.finite sign mantissa.toNat (-1074) h)
      = packComponents .binary64 sign 0#11 mantissa := by
  have hlog : mantissa.toNat.log2 < 52 := (Nat.log2_lt (Nat.ne_of_gt h)).mpr mantissa.isLt
  have hbits : ¬mantissa.toNat.log2 + 1 = Format.binary64.mantissaBits := by
    show ¬mantissa.toNat.log2 + 1 = 53
    omega
  have hfield : ¬(2 ^ Format.binary64.exponentBits
      ≤ ((-1074 : Int) + Format.binary64.exponentBias
          + Format.binary64.mantissaBitsWithoutImplicit).toNat + 1) := by decide
  unfold pack
  dsimp only
  rw [if_neg hfield, if_neg hbits]
  simp

/-- A normal value is packed with its own exponent field, without the implicit bit. -/
theorem pack_normal (sign : UnpackedFloat.Sign) (exponent : BitVec 11) (mantissa : BitVec 52)
    (hexponent : exponent.toNat < 2047) (h : 0 < (1#1 ++ mantissa).toNat) :
    pack .binary64 (.finite sign (1#1 ++ mantissa).toNat (exponent.toNat - 1075) h)
      = packComponents .binary64 sign exponent mantissa := by
  have himplicit : (1#1 ++ mantissa).toNat = 2 ^ 52 + mantissa.toNat := by
    rw [BitVec.toNat_append, ← Nat.shiftLeft_add_eq_or_of_lt mantissa.isLt]
    rfl
  have hlog : (1#1 ++ mantissa).toNat.log2 = 52 := by
    have hmantissa := mantissa.isLt
    rw [Nat.log2_eq_iff (Nat.ne_of_gt h)]
    omega
  have hbits : (1#1 ++ mantissa).toNat.log2 + 1 = Format.binary64.mantissaBits := by
    rw [hlog]
    rfl
  have hbias : ((exponent.toNat : Int) - 1075 + Format.binary64.exponentBias
      + Format.binary64.mantissaBitsWithoutImplicit).toNat = exponent.toNat := by
    show ((exponent.toNat : Int) - 1075 + 1023 + 52).toNat = exponent.toNat
    omega
  unfold pack
  dsimp only
  rw [hbias, if_neg (by show ¬2 ^ 11 ≤ exponent.toNat + 1; omega), if_pos hbits]
  congr 1
  · simp
  · apply BitVec.eq_of_toNat_eq
    rw [BitVec.toNat_ofNat, himplicit, Nat.add_mod_left, Nat.mod_eq_of_lt mantissa.isLt]

/-! ## Patterns without loss -/

/-- Unpacking a valid pattern and packing it again gives the pattern. -/
theorem pack_unpack {b : BitVec Format.binary64.numBits} (h : Format.binary64.Valid b) :
    pack .binary64 (unpack .binary64 b) = b := by
  unfold unpack
  dsimp only
  by_cases hones : unpackExponent b = -1#11
  · by_cases hmantissa : unpackMantissa b = 0#52
    · rw [if_pos hones, if_pos hmantissa]
      exact packComponents_eq hones hmantissa
    · rw [if_pos hones, if_neg hmantissa]
      exact (h.eq_packedNaN hones hmantissa).symm
  · rw [if_neg hones]
    by_cases hzero : unpackExponent b = 0#11
    · rw [if_pos hzero]
      by_cases hmantissa : unpackMantissa b = 0#52
      · rw [dif_pos hmantissa]
        exact packComponents_eq hzero hmantissa
      · have hexponent : ((unpackExponent b).toNat : Int) - (Format.binary64.exponentBias
            + Format.binary64.mantissaBitsWithoutImplicit) + 1 = -1074 := by
          rw [hzero]
          rfl
        rw [dif_neg hmantissa, hexponent, pack_subnormal]
        exact packComponents_eq hzero rfl
    · have hbelow : (unpackExponent b).toNat < 2047 := by
        have hlt : (unpackExponent b).toNat < 2048 := (unpackExponent b).isLt
        have hne : (unpackExponent b).toNat ≠ 2047 :=
          fun heq => hones (BitVec.eq_of_toNat_eq heq)
        omega
      rw [if_neg hzero]
      exact (pack_normal _ _ _ hbelow _).trans (packComponents_fields b)

/-- A float is the float of its own pattern. -/
theorem ofBits_toBits (x : Float) : Float.ofBits x.toBits = x := by
  obtain ⟨⟨bits, hvalid⟩⟩ := x
  have hpacked := pack_unpack hvalid
  have hbits : UInt64.ofBitVec (pack .binary64 (unpack .binary64 bits.toBitVec)) = bits := by
    rw [hpacked]
  show Float.ofModel (Float.Model.pack (unpack .binary64 bits.toBitVec)) = _
  exact congrArg Float.ofModel ((Float.Model.mk.injEq _ _ _ _).mpr hbits)

/-- The exponent field of a pattern. -/
theorem toNat_unpackExponent (bits : UInt64) :
    (@unpackExponent .binary64 bits.toBitVec).toNat = bits.toNat / 4503599627370496 % 2048 := by
  simp [unpackExponent, Format.binary64, Nat.shiftRight_eq_div_pow]

/-- The mantissa field of a pattern. -/
theorem toNat_unpackMantissa (bits : UInt64) :
    (@unpackMantissa .binary64 bits.toBitVec).toNat = bits.toNat % 4503599627370496 := by
  simp [unpackMantissa, Format.binary64]

/-- The pattern of a value beyond infinity is the one of all NaNs. -/
theorem pattern_nan {bits : UInt64} (hvalid : Format.binary64.Valid bits.toBitVec)
    (h : infinity < bits.toNat % signBit) : Datum.nan.pattern = bits.toNat := by
  have hbound := bits.toNat_lt
  have hword : 2047 * 4503599627370496 < bits.toNat % 9223372036854775808 := h
  have hones : @unpackExponent .binary64 bits.toBitVec = -1#11 := by
    apply BitVec.eq_of_toNat_eq
    rw [toNat_unpackExponent]
    show _ = 2047
    omega
  have hmantissa : @unpackMantissa .binary64 bits.toBitVec ≠ 0#52 := by
    intro hzero
    have hnat := congrArg BitVec.toNat hzero
    rw [toNat_unpackMantissa] at hnat
    have hnone : bits.toNat % 4503599627370496 = 0 := hnat
    omega
  have hbits := congrArg BitVec.toNat (hvalid.eq_packedNaN hones hmantissa)
  exact hbits.symm

/-- A pattern is its sign and its word. -/
theorem sign_add_word {pattern : Nat} (h : pattern < 2 * signBit) :
    (if decide (signBit ≤ pattern) then signBit else 0) + pattern % signBit = pattern := by
  have hsign : signBit = 9223372036854775808 := rfl
  rw [hsign] at h ⊢
  simp only [decide_eq_true_eq]
  split <;> omega

/-- The class of a value keeps its pattern. -/
theorem pattern_ofFloat (x : Float) : (Datum.ofFloat x).pattern = x.toBits.toNat := by
  have hparts := sign_add_word x.toBits.toNat_lt
  unfold Datum.ofFloat
  dsimp only
  split
  · next hnan => exact pattern_nan x.toModel.valid hnan
  · split
    · next hinfinite =>
      rw [hinfinite] at hparts
      exact hparts
    · exact hparts

/-- A value is the value of its class. -/
theorem toFloat_ofFloat (x : Float) : (Datum.ofFloat x).toFloat = x := by
  rw [Datum.toFloat, pattern_ofFloat, UInt64.ofNat_toNat]
  exact ofBits_toBits x

/-- A finite value is the value of its sign and its magnitude word. -/
theorem toFloat_ofFloat_finite {x : Float} {negative : Bool} {word : Nat}
    (h : Datum.ofFloat x = .finite negative word) : (Datum.finite negative word).toFloat = x :=
  h ▸ toFloat_ofFloat x

/-- The magnitude word of a finite value lies below that of infinity. -/
theorem word_lt_of_ofFloat {x : Float} {negative : Bool} {word : Nat}
    (h : Datum.ofFloat x = .finite negative word) : word < infinity := by
  unfold Datum.ofFloat at h
  dsimp only at h
  split at h
  · cases h
  · split at h
    · cases h
    · injection h with _ hword
      omega

/-- A pattern whose exponent field is not full is that of a value. -/
theorem valid_of_lt {bits : UInt64} (h : bits.toNat < infinity) :
    Format.binary64.Valid bits.toBitVec := by
  refine ⟨fun hones => ?_⟩
  have hbound : bits.toNat < 2047 * 4503599627370496 := h
  have hfield : (@unpackExponent .binary64 bits.toBitVec).toNat =
      bits.toNat / 4503599627370496 % 2048 := toNat_unpackExponent bits
  have hfull : (@unpackExponent .binary64 bits.toBitVec).toNat = 2047 := by
    rw [hones]
    rfl
  omega

/-- The pattern of a value is the one it was made of. -/
theorem toBits_ofBits {bits : UInt64} (h : Format.binary64.Valid bits.toBitVec) :
    (Float.ofBits bits).toBits = bits := by
  have hpacked := pack_unpack h
  show UInt64.ofBitVec (pack .binary64 (unpack .binary64 bits.toBitVec)) = bits
  rw [hpacked]

/-- A word below that of infinity is the word of its value. -/
theorem ofFloat_toFloat_finite {word : Nat} (h : word < infinity) :
    Datum.ofFloat (Datum.finite false word).toFloat = .finite false word := by
  have hbound : word < 2047 * 4503599627370496 := h
  have hsign : signBit = 9223372036854775808 := rfl
  have hpattern : (Datum.finite false word).pattern = word := by simp [Datum.pattern]
  have hword : (UInt64.ofNat word).toNat = word := by
    rw [UInt64.toNat_ofNat']
    omega
  have hbits : (Datum.finite false word).toFloat.toBits.toNat = word := by
    rw [Datum.toFloat, hpattern, toBits_ofBits (valid_of_lt (hword.symm ▸ h)), hword]
  unfold Datum.ofFloat
  dsimp only
  rw [hbits, Nat.mod_eq_of_lt (by omega), if_neg (by omega), if_neg (by omega)]
  have hpositive : ¬signBit ≤ word := by omega
  simp [hpositive]

end LineBasic.Binary64
