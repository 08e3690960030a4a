import LineBasic.Parser
import LineBasic.Proofs.Segments
import LineBasic.Proofs.Text.Recased

/-!
# Letter case

A source may be written in small letters or in capitals, or in both, and only the inside of a string
literal tells them apart. Which characters are inside of one is a matter of the tokens: a quote may
be left open to the end of its line, and in a comment quotes are paired like anywhere else. So it is
the spans of the source that say where its case may be changed, and after the change they are the
same spans, with the same tokens.

This is shown for a source that is cut one token after the other. A token that is no literal is as
long as it can be in every case of its text and of the text behind it (`Token.Munched.recased`),
and blanks have no case.

## Main definitions

* `Token.isLiteral`: string literals, closed or not;
* `capitalize`: a source in upper case, except in its literals.

## Main results

* `Segmentation.Cuts.mapFrom`: the spans of a source in another case;
* `collects_capitalize`, `parse_capitalize`: a capitalised source has the tokens of the source.
-/

namespace LineBasic

open Text

/-! ## Tokens in another case -/

/-- A string literal, or the beginning of one that its line ends. -/
def Token.isLiteral : Token → Bool
  | .text _ | .unterminated => true
  | _ => false

variable {rest rest' text text' : List Char}

/-- A word is as long as it can be in every case. -/
theorem IsWordBefore.recased (h : IsWordBefore rest text) (htext : Recased text text')
    (hrest : Recased rest rest') : IsWordBefore rest' text' where
  spelled := by
    obtain ⟨first, stem, hfirst, hstem, rfl | rfl⟩ := h.spelled
    · obtain ⟨first', stem', rfl, hsame, hlater⟩ := htext.of_cons
      rw [← caseless_isAlpha, ← hsame, caseless_isAlpha] at hfirst
      exact ⟨first', stem', hfirst, hlater.all caseless_isAlphanum hstem, .inl rfl⟩
    · obtain ⟨first', later, rfl, hsame, hlater⟩ := htext.of_cons
      obtain ⟨stem', closing, rfl, hstem', hclosing⟩ := hlater.of_append
      have hdollar : closing = ['$'] := hclosing.eq_of_no_letters (List.any_eq_false.mp (by decide))
      rw [← caseless_isAlpha, ← hsame, caseless_isAlpha] at hfirst
      exact ⟨first', stem', hfirst, hstem'.all caseless_isAlphanum hstem, .inr (hdollar ▸ rfl)⟩
  longest hopen := by
    have hopen' : text.getLast? ≠ some '$' := by
      rw [← List.head?_reverse] at hopen ⊢
      exact htext.symm.reverse.head?_ne (by decide) hopen
    obtain ⟨hstops, hdollar⟩ := h.longest hopen'
    exact ⟨hrest.stops caseless_isAlphanum hstops, hrest.head?_ne (by decide) hdollar⟩

/-- So is a number, which has no other case itself. -/
theorem IsNumberBefore.recased (h : IsNumberBefore rest text) (hrest : Recased rest rest') :
    IsNumberBefore rest' text where
  spelled := h.spelled
  one_point := h.one_point
  longest := ⟨hrest.stops caseless_isDigit h.longest.1,
    fun hno => hrest.head?_ne (by decide) (h.longest.2 hno)⟩

theorem IsNumberBefore.no_letters (h : IsNumberBefore rest text) : ∀ c ∈ text, ¬c.isAlpha := by
  obtain ⟨first, later, rfl, hfirst, hlater⟩ := h.spelled
  refine List.forall_mem_cons.mpr ⟨not_isAlpha_of_isDigit hfirst, fun c hc => ?_⟩
  rcases hlater c hc with hdigit | rfl
  · exact not_isAlpha_of_isDigit hdigit
  · decide

theorem Operator.Closed.recased {op : Operator} (h : op.Closed rest) (hrest : Recased rest rest') :
    op.Closed rest' := by
  cases op with
  | less => exact ⟨hrest.head?_ne (by decide) h.1, hrest.head?_ne (by decide) h.2⟩
  | greater => exact hrest.head?_ne (by decide) h
  | _ => trivial

/-- **A token is as long as it can be in every case** of its text and of what is behind it, if it is
no literal. A literal is so in every case of what is behind it. -/
theorem Token.Munched.recased {token : Token} (h : token.Munched rest text)
    (hrest : Recased rest rest') (htext : Recased text text')
    (hliteral : token.isLiteral → text' = text) : token.Munched rest' text' := by
  cases token with
  | keyword k => exact ⟨h.1.recased htext hrest, htext.trans h.2⟩
  | name word => exact ⟨h.1.recased htext hrest, htext.trans h.2.1, h.2.2⟩
  | number digits =>
      obtain ⟨hnumber, rfl⟩ := h
      rw [htext.eq_of_no_letters hnumber.no_letters]
      exact ⟨hnumber.recased hrest, rfl⟩
  | text content =>
      rw [hliteral rfl]
      exact h
  | unterminated =>
      obtain ⟨content, rfl, hcontent, hend⟩ := h
      rw [hliteral rfl]
      exact ⟨content, rfl, hcontent, hend.imp hrest.eq_nil_iff.mpr (hrest.head?_eq (by decide))⟩
  | stray c =>
      obtain ⟨rfl, hgap, hbegins⟩ := h
      have hno : ∀ d ∈ [c], ¬d.isAlpha := by
        intro d hd halpha
        rw [List.mem_singleton.mp hd] at halpha
        exact hbegins (.inl (isAlphanum_iff.mpr (.inl halpha)))
      exact ⟨htext.eq_of_no_letters hno, hgap, hbegins⟩
  | operator op =>
      obtain ⟨rfl, hclosed⟩ := h
      refine ⟨htext.eq_of_no_letters ?_, hclosed.recased hrest⟩
      exact List.any_eq_false.mp (by cases op <;> decide)
  | leftParen =>
      subst h
      exact htext.eq_of_no_letters (List.any_eq_false.mp (by decide))
  | rightParen =>
      subst h
      exact htext.eq_of_no_letters (List.any_eq_false.mp (by decide))
  | comma =>
      subst h
      exact htext.eq_of_no_letters (List.any_eq_false.mp (by decide))

/-! ## Sources in another case -/

theorem isAlpha_of_isGap {c : Char} (h : isGap c) : ¬c.isAlpha := by
  intro halpha
  rw [isGap_of_isAlphanum (isAlphanum_iff.mpr (.inl halpha))] at h
  cases h

section Mapping

variable {f : Nat → Char → Char} {start : Nat} {spans : List Span}

/-- A source in another case, and the same in its literals, is cut on the same spans. -/
theorem Segmentation.Cuts.mapFrom (hcase : ∀ i c, (f i c).toUpper = c.toUpper)
    (h : Cuts start text spans)
    (hkept : ∀ span ∈ spans, span.token.isLiteral →
      ∀ i c, span.start ≤ i → i < span.stop → f i c = c) :
    Cuts start (Text.mapFrom f start text) spans := by
  induction h with
  | @blank start gap hgap =>
      rw [(recased_mapFrom hcase start gap).eq_of_no_letters fun c hc =>
        isAlpha_of_isGap (hgap c hc)]
      exact .blank hgap
  | @token start gap lexeme rest token spans hgap hmunched _ ih =>
      obtain ⟨hlexeme, hlater⟩ := List.forall_mem_cons.mp hkept
      have hsame := recased_mapFrom hcase (start + byteSize gap) lexeme
      have hrest := recased_mapFrom hcase (start + byteSize gap + byteSize lexeme) rest
      have hblank := (recased_mapFrom hcase start gap).eq_of_no_letters fun c hc =>
        isAlpha_of_isGap (hgap c hc)
      have hmunched' := hmunched.recased hrest hsame fun hliteral =>
        mapFrom_eq_self (hlexeme hliteral)
      have hcut := ih hlater
      rw [List.append_assoc, mapFrom_append, mapFrom_append, hblank, ← List.append_assoc]
      -- The rest is cut from a position that the changed text of the token leads up to as well.
      generalize Text.mapFrom f _ lexeme = lexeme' at hsame hmunched' ⊢
      generalize Text.mapFrom f _ rest = rest' at hmunched' hcut ⊢
      rw [← hsame.byteSize_eq] at hcut ⊢
      exact .token hgap hmunched' hcut

end Mapping

/-- The tokens of a text are those of its spans. -/
theorem Segmentation.map_token_spansFrom (start : Nat) (lexemes : List Lexeme) :
    (spansFrom start lexemes).map Span.token = lexemes.map Lexeme.token := by
  induction lexemes generalizing start with
  | nil => rfl
  | cons lexeme later ih =>
      rw [spansFrom, List.map_cons, List.map_cons, ih]

/-! ## Capitalised sources -/

/-- Whether a byte position is one of a string literal. -/
def inLiteral (spans : List Span) (i : Nat) : Bool :=
  spans.any fun span => span.token.isLiteral && span.start ≤ i && i < span.stop

/-- A source in upper case, except in its string literals. -/
def capitalize (source : String) : String :=
  let kept := inLiteral (Segmentation.ofText source.toList).spans
  String.ofList (Text.mapFrom (fun i c => if kept i then c else c.toUpper) 0 source.toList)

/-- A byte in upper case, if it is a small letter. -/
def upperByte (byte : UInt8) : UInt8 := if 97 ≤ byte ∧ byte ≤ 122 then byte - 32 else byte

theorem upperByte_of_le {byte : UInt8} (h : 128 ≤ byte.toNat) : upperByte byte = byte := by
  unfold upperByte
  rw [if_neg]
  rintro ⟨-, hhigh⟩
  have hsmall : byte.toNat ≤ 122 := UInt8.le_iff_toNat_le.mp hhigh
  omega

/-- In ASCII a character in upper case is its byte in upper case. -/
theorem upperByte_ofNat {c : Char} (h : c.toNat < 128) :
    upperByte (UInt8.ofNat c.toNat) = UInt8.ofNat c.toUpper.toNat := by
  have hbyte : (UInt8.ofNat c.toNat).toNat = c.toNat :=
    UInt8.toNat_ofNat_of_lt' (Nat.lt_trans h (by decide))
  have hsmall : 97 ≤ UInt8.ofNat c.toNat ∧ UInt8.ofNat c.toNat ≤ 122 ↔ c.isLower := by
    rw [UInt8.le_iff_toNat_le, UInt8.le_iff_toNat_le, hbyte, isLower_iff]
    exact Iff.rfl
  unfold upperByte
  by_cases hlower : c.isLower
  · have hrange := isLower_iff.mp hlower
    rw [if_pos (hsmall.mpr hlower), toNat_toUpper hlower, UInt8.ofNat_sub (by omega)]
    rfl
  · rw [if_neg (mt hsmall.mp hlower), toUpper_of_not_isLower hlower]

theorem mapIdx_eq_self {bytes : List UInt8} {g : Nat → UInt8 → UInt8}
    (h : ∀ k, ∀ byte ∈ bytes, g k byte = byte) : bytes.mapIdx g = bytes := by
  induction bytes generalizing g with
  | nil => rfl
  | cons byte bytes ih =>
      rw [List.mapIdx_cons, h 0 byte List.mem_cons_self,
        ih fun k other hother => h (k + 1) other (List.mem_cons_of_mem byte hother)]

/-- The bytes of one character. It has one byte, or it is no letter of ASCII and none of its bytes
is either. -/
theorem utf8EncodeChar_capital (kept : Nat → Bool) (start : Nat) (c : Char) :
    String.utf8EncodeChar (if kept start then c else c.toUpper) =
      (String.utf8EncodeChar c).mapIdx fun k byte =>
        if kept (start + k) then byte else upperByte byte := by
  by_cases hascii : c.toNat < 128
  · have hupper : c.toUpper.toNat < 128 := by
      by_cases hlower : c.isLower
      · rw [toNat_toUpper hlower]
        omega
      · rwa [toUpper_of_not_isLower hlower]
    rw [utf8EncodeChar_of_lt hascii, List.mapIdx_cons, upperByte_ofNat hascii, Nat.add_zero]
    split
    · exact utf8EncodeChar_of_lt hascii
    · exact utf8EncodeChar_of_lt hupper
  · have hlower : ¬c.isLower := by
      rw [isLower_iff]
      omega
    rw [toUpper_of_not_isLower hlower, ite_self, mapIdx_eq_self]
    intro k byte hbyte
    rw [upperByte_of_le (le_of_mem_utf8EncodeChar (Nat.le_of_not_lt hascii) byte hbyte), ite_self]

/-- The bytes of a text in upper case where a position is not kept. -/
theorem flatMap_mapFrom (kept : Nat → Bool) (start : Nat) (text : List Char) :
    (Text.mapFrom (fun i c => if kept i then c else c.toUpper) start text).flatMap
        String.utf8EncodeChar =
      (text.flatMap String.utf8EncodeChar).mapIdx fun k byte =>
        if kept (start + k) then byte else upperByte byte := by
  induction text generalizing start with
  | nil => rfl
  | cons c text ih =>
      have hshift (k : Nat) : start + c.utf8Size + k = start + (k + c.utf8Size) := by omega
      rw [Text.mapFrom, List.flatMap_cons, List.flatMap_cons, List.mapIdx_append, ih,
        utf8EncodeChar_capital]
      simp only [String.length_utf8EncodeChar, hshift]

section Capitalized

variable (source : String)

theorem toList_capitalize : (capitalize source).toList =
    Text.mapFrom
      (fun i c => if inLiteral (Segmentation.ofText source.toList).spans i then c else c.toUpper)
      0 source.toList := String.toList_ofList

/-- The bytes of a capitalised source: those in string literals, and the others in upper case. -/
theorem encode_capitalize : Console.encode (capitalize source) =
    (Console.encode source).mapIdx fun i byte =>
      if inLiteral (Segmentation.ofText source.toList).spans i then byte else upperByte byte := by
  rw [Console.encode_eq, Console.encode_eq, toList_capitalize, flatMap_mapFrom]
  simp only [Nat.zero_add]

/-- A source is capitalised by changing the case of letters. -/
theorem recased_capitalize : Recased source.toList (capitalize source).toList := by
  rw [toList_capitalize]
  refine recased_mapFrom (fun i c => ?_) 0 source.toList
  split
  · rfl
  · exact toUpper_toUpper c

theorem cuts_capitalize : Segmentation.Cuts 0 (capitalize source).toList
    (Segmentation.ofText source.toList).spans := by
  rw [toList_capitalize]
  refine (Segmentation.cuts_spansFrom 0 source.toList).mapFrom (fun i c => ?_) ?_
  · split
    · rfl
    · exact toUpper_toUpper c
  · intro span hspan hliteral i c hstart hstop
    rw [if_pos]
    refine List.any_eq_true.mpr ⟨span, hspan, ?_⟩
    simp [hliteral, hstart, hstop]

theorem spans_capitalize : (Segmentation.ofText (capitalize source).toList).spans =
    (Segmentation.ofText source.toList).spans := (cuts_capitalize source).spans_eq.symm

theorem ofText_capitalize : Token.ofText (capitalize source).toList =
    Token.ofText source.toList := by
  have hspans := congrArg (List.map Span.token) (spans_capitalize source)
  rwa [Segmentation.spans, Segmentation.spans, Segmentation.map_token_spansFrom,
    Segmentation.map_token_spansFrom] at hspans

/-- A capitalised source is cut into the tokens of the source, on the same spans, up to the end. -/
theorem collects_capitalize (found : List Found) :
    (Scanner.start (capitalize source)).Collects found ↔
      (Scanner.start source).Collects found := by
  have hcapital := Scanner.collects_of_cuts (cuts_capitalize source)
  have hsource := Scanner.collects_of_cuts (Segmentation.cuts_spansFrom 0 source.toList)
  rw [(recased_capitalize source).byteSize_eq] at hcapital
  constructor
  · intro h
    rw [h.unique hcapital]
    exact hsource
  · intro h
    rw [h.unique hsource]
    exact hcapital

/-- It is parsed as the source is, with the same errors. -/
theorem parse_capitalize : Parser.parse (capitalize source) = Parser.parse source := by
  unfold Parser.parse Parser.ofText
  rw [ofText_capitalize]

end Capitalized

end LineBasic
