import LineBasic.Console
import LineBasic.Lexeme

/-!
# Characters and their bytes

A text is a list of characters and, in UTF-8, a list of bytes. A position between two characters is
a number of bytes, and two such positions are in the order of the fronts of the text that they end.
A byte of the text belongs to one character, and the first byte of a character tells whether the
character is a blank, since a character beyond ASCII begins with no byte of ASCII.

## Main results

* `exists_between`, `exists_within`: fronts of one text, by their numbers of bytes;
* `exists_char_of_byte`: the character that a byte belongs to;
* `isGap_iff_first_byte`: blanks, by their bytes.
-/

namespace LineBasic

/-! ## Positions -/

theorem byteSize_append (a b : List Char) : byteSize (a ++ b) = byteSize a + byteSize b := by
  induction a with
  | nil => simp [byteSize]
  | cons c a ih => simp only [List.cons_append, byteSize, ih, Nat.add_assoc]

theorem byteSize_pos {text : List Char} (h : text ≠ []) : 0 < byteSize text := by
  obtain ⟨c, rest, rfl⟩ := List.exists_cons_of_ne_nil h
  have hsize := c.utf8Size_pos
  unfold byteSize
  omega

/-- Of two fronts of a text the one that is not longer is a front of the other. -/
theorem exists_between {a b c d : List Char} (h : a ++ b = c ++ d) (hle : byteSize a ≤ byteSize c) :
    ∃ between, c = a ++ between ∧ b = between ++ d := by
  rcases List.append_eq_append_iff.mp h with ⟨between, hc, hb⟩ | ⟨between, ha, hd⟩
  · exact ⟨between, hc, hb⟩
  · have hnil : between = [] := by
      have hsize := congrArg byteSize ha
      rw [byteSize_append] at hsize
      by_cases hbetween : between = []
      · exact hbetween
      · have hpos := byteSize_pos hbetween
        omega
    subst hnil
    exact ⟨[], by simp [ha], by simp [hd]⟩

/-- A character that begins within a front of a text is a character of that front. -/
theorem exists_within {left right front back : List Char} {c : Char}
    (h : left ++ c :: right = front ++ back) (hlt : byteSize left < byteSize front) :
    ∃ between, front = left ++ c :: between := by
  obtain ⟨between, hfront, hback⟩ := exists_between h (Nat.le_of_lt hlt)
  cases between with
  | nil =>
      rw [hfront, List.append_nil] at hlt
      exact absurd hlt (Nat.lt_irrefl _)
  | cons d between =>
      injection hback with hc
      exact ⟨between, hc ▸ hfront⟩

/-! ## Bytes -/

/-- The bytes of a source are those of its characters. -/
theorem Console.encode_eq (source : String) :
    encode source = source.toList.flatMap String.utf8EncodeChar := by
  unfold encode
  rw [String.toUTF8_eq_toByteArray, ← String.utf8Encode_toList, List.utf8Encode,
    List.data_toByteArray]

theorem length_flatMap (chars : List Char) :
    (chars.flatMap String.utf8EncodeChar).length = byteSize chars := by
  induction chars with
  | nil => rfl
  | cons c chars ih =>
      rw [List.flatMap_cons, List.length_append, ih, String.length_utf8EncodeChar]
      rfl

theorem utf8ByteSize_eq (source : String) : source.utf8ByteSize = byteSize source.toList := by
  have hbytes := length_flatMap source.toList
  rw [← Console.encode_eq] at hbytes
  exact hbytes

theorem isGap_iff_toNat {c : Char} : isGap c ↔ c.toNat = 32 ∨ c.toNat = 9 ∨ c.toNat = 13 := by
  have hchar (d : Char) : c = d ↔ c.toNat = d.toNat := Char.toNat_inj.symm
  simp only [isGap, Bool.or_eq_true, decide_eq_true_eq, hchar, or_assoc]
  rfl

/-- A blank is one byte. -/
theorem utf8Size_of_isGap {c : Char} (h : isGap c) : c.utf8Size = 1 := by
  have hcode := isGap_iff_toNat.mp h
  rw [Char.utf8Size_eq_one_iff, UInt32.le_iff_toNat_le]
  show c.toNat ≤ 127
  omega

/-- The first byte of a character is its code if that is ASCII, and else no byte of ASCII. -/
theorem exists_first_byte (c : Char) :
    ∃ n, (String.utf8EncodeChar c)[0]? = some (UInt8.ofNat n) ∧ n < 256 ∧
      (n = c.toNat ∨ 128 ≤ n ∧ 128 ≤ c.toNat) := by
  have hcode : c.val.toNat = c.toNat := rfl
  unfold String.utf8EncodeChar
  dsimp only
  split
  · exact ⟨c.val.toNat, rfl, by omega, .inl hcode⟩
  · split
    · exact ⟨c.val.toNat / 64 % 32 + 192, rfl, by omega, .inr ⟨by omega, by omega⟩⟩
    · split
      · exact ⟨c.val.toNat / 4096 % 16 + 224, rfl, by omega, .inr ⟨by omega, by omega⟩⟩
      · exact ⟨c.val.toNat / 262144 % 8 + 240, rfl, by omega, .inr ⟨by omega, by omega⟩⟩

/-- A character of ASCII is one byte. -/
theorem utf8EncodeChar_of_lt {c : Char} (h : c.toNat < 128) :
    String.utf8EncodeChar c = [UInt8.ofNat c.toNat] := by
  have hcode : c.val.toNat ≤ 127 := Nat.le_of_lt_succ h
  unfold String.utf8EncodeChar
  dsimp only
  rw [if_pos hcode]
  rfl

/-- No byte of another character is one of ASCII. -/
theorem le_of_mem_utf8EncodeChar {c : Char} (h : 128 ≤ c.toNat) :
    ∀ byte ∈ String.utf8EncodeChar c, 128 ≤ byte.toNat := by
  have hcode : c.val.toNat = c.toNat := rfl
  have hbyte {n : Nat} (hlow : 128 ≤ n) (hhigh : n < 256) : 128 ≤ (UInt8.ofNat n).toNat := by
    rwa [UInt8.toNat_ofNat_of_lt' hhigh]
  unfold String.utf8EncodeChar
  dsimp only
  split
  · omega
  · split
    · refine List.forall_mem_cons.mpr ⟨hbyte (by omega) (by omega), ?_⟩
      exact List.forall_mem_singleton.mpr (hbyte (by omega) (by omega))
    · split
      · refine List.forall_mem_cons.mpr ⟨hbyte (by omega) (by omega), ?_⟩
        refine List.forall_mem_cons.mpr ⟨hbyte (by omega) (by omega), ?_⟩
        exact List.forall_mem_singleton.mpr (hbyte (by omega) (by omega))
      · refine List.forall_mem_cons.mpr ⟨hbyte (by omega) (by omega), ?_⟩
        refine List.forall_mem_cons.mpr ⟨hbyte (by omega) (by omega), ?_⟩
        refine List.forall_mem_cons.mpr ⟨hbyte (by omega) (by omega), ?_⟩
        exact List.forall_mem_singleton.mpr (hbyte (by omega) (by omega))

/-- The first byte of a character tells whether the character is a blank. -/
theorem isGap_iff_first_byte {c : Char} {byte : UInt8}
    (h : (String.utf8EncodeChar c)[0]? = some byte) :
    isGap c ↔ byte = 32 ∨ byte = 9 ∨ byte = 13 := by
  obtain ⟨n, hfirst, hbound, hn⟩ := exists_first_byte c
  have hbyte : byte.toNat = n := by
    rw [hfirst] at h
    injection h with h
    rw [← h, UInt8.toNat_ofNat_of_lt' hbound]
  rw [isGap_iff_toNat, ← UInt8.toNat_inj, ← UInt8.toNat_inj, ← UInt8.toNat_inj, hbyte]
  show _ ↔ n = 32 ∨ n = 9 ∨ n = 13
  omega

/-- A byte of a text belongs to one of its characters. -/
theorem exists_char_of_byte {chars : List Char} {i : Nat} {byte : UInt8}
    (h : (chars.flatMap String.utf8EncodeChar)[i]? = some byte) :
    ∃ left c right k, chars = left ++ c :: right ∧ i = byteSize left + k ∧
      (String.utf8EncodeChar c)[k]? = some byte := by
  induction chars generalizing i with
  | nil => simp at h
  | cons c chars ih =>
      rw [List.flatMap_cons] at h
      by_cases hi : i < c.utf8Size
      · rw [List.getElem?_append_left (by rwa [String.length_utf8EncodeChar])] at h
        exact ⟨[], c, chars, i, rfl, (Nat.zero_add i).symm, h⟩
      · have hsize := String.length_utf8EncodeChar c
        rw [List.getElem?_append_right (by omega), hsize] at h
        obtain ⟨left, d, right, k, hchars, hk, hd⟩ := ih h
        refine ⟨c :: left, d, right, k, by rw [hchars]; rfl, ?_, hd⟩
        unfold byteSize
        omega

/-- The byte at a character's position is the first one of the character. -/
theorem getElem?_byteSize (left right : List Char) (c : Char) :
    ((left ++ c :: right).flatMap String.utf8EncodeChar)[byteSize left]? =
      (String.utf8EncodeChar c)[0]? := by
  have hpos := c.utf8Size_pos
  rw [List.flatMap_append, List.getElem?_append_right (Nat.le_of_eq (length_flatMap left)),
    length_flatMap, Nat.sub_self, List.flatMap_cons,
    List.getElem?_append_left (by rwa [String.length_utf8EncodeChar])]

end LineBasic
