import LineBasic.Proofs.Text.Bytes
import LineBasic.Proofs.Text.Letters
import LineBasic.Proofs.Text.Tight

/-!
# Texts in another letter case

Two texts that are the same in upper case differ in the case of letters alone. So they agree in all
that does not tell small letters from capital ones: in their length and their number of bytes, and
in the place of every character that is no letter.

A text may be changed character by character, with the byte position of each. If that changes no
more than the case of letters, the positions stay where they were.

## Main definitions

* `Recased`: a text in another letter case;
* `Caseless`: a class of characters that holds both cases of a letter or none;
* `mapFrom`: a text changed by its positions.

## Main results

* `Recased.stops`, `Recased.all`: what a class without letter case says of one text, it says of the
  other;
* `Recased.eq_of_no_letters`: a text without letters has no other case.
-/

namespace LineBasic.Text

/-! ## Classes without letter case -/

/-- The class holds both cases of a letter, or none of them. -/
def Caseless (p : Char → Bool) : Prop := ∀ c, p c.toUpper = p c

variable {p : Char → Bool}

/-- A class that holds all letters or none is without letter case. -/
theorem Caseless.of_isAlpha {b : Bool} (h : ∀ c, c.isAlpha → p c = b) : Caseless p := by
  intro c
  by_cases hlower : c.isLower
  · have halpha : c.isAlpha := isAlpha_iff.mpr (.inr (isLower_iff.mp hlower))
    have hupper : c.toUpper.isAlpha :=
      isAlpha_iff.mpr (.inl (isUpper_iff.mp (isUpper_toUpper halpha)))
    rw [h c halpha, h _ hupper]
  · rw [toUpper_of_not_isLower hlower]

theorem caseless_isAlpha : Caseless Char.isAlpha := .of_isAlpha fun _ h => h

theorem caseless_isAlphanum : Caseless Char.isAlphanum :=
  .of_isAlpha fun _ h => isAlphanum_iff.mpr (.inl h)

theorem caseless_isBlank : Caseless isBlank :=
  .of_isAlpha fun _ h => isBlank_of_isAlphanum (isAlphanum_iff.mpr (.inl h))

theorem not_isAlpha_of_isDigit {c : Char} (h : c.isDigit) : ¬c.isAlpha := by
  have hrange := isDigit_iff.mp h
  rw [isAlpha_iff]
  omega

theorem caseless_isDigit : Caseless Char.isDigit :=
  .of_isAlpha fun _ h => Bool.eq_false_iff.mpr fun hdigit => not_isAlpha_of_isDigit hdigit h

/-- A character that is no letter is in a class by itself. -/
theorem caseless_eq {d : Char} (hd : ¬d.isAlpha) : Caseless (fun c => decide (c = d)) :=
  .of_isAlpha fun _ h => decide_eq_false fun heq => hd (heq ▸ h)

/-- What is no letter is the same in every case. -/
theorem eq_of_toUpper_eq {c d : Char} (h : d.toUpper = c.toUpper) (hc : ¬c.isAlpha) : d = c := by
  have hsame : decide (d.toUpper = c) = decide (d = c) := caseless_eq hc d
  have hself : decide (c.toUpper = c) = decide (c = c) := caseless_eq hc c
  rw [h, hself, decide_eq_true rfl] at hsame
  exact of_decide_eq_true hsame.symm

/-- The cases of a letter are of one size. -/
theorem utf8Size_toUpper (c : Char) : c.toUpper.utf8Size = c.utf8Size := by
  by_cases hlower : c.isLower
  · have hrange := isLower_iff.mp hlower
    have hshift := toNat_toUpper hlower
    have hsmall {d : Char} (hd : d.toNat ≤ 127) : d.utf8Size = 1 := by
      rw [Char.utf8Size_eq_one_iff, UInt32.le_iff_toNat_le]
      exact hd
    rw [hsmall (by omega), hsmall (by omega)]
  · rw [toUpper_of_not_isLower hlower]

/-! ## Texts -/

/-- The other text is the same in upper case. -/
def Recased (text other : List Char) : Prop := other.map Char.toUpper = text.map Char.toUpper

namespace Recased

variable {text other front back : List Char} {c : Char}

theorem symm (h : Recased text other) : Recased other text := Eq.symm h

theorem of_cons (h : Recased (c :: text) other) :
    ∃ d later, other = d :: later ∧ d.toUpper = c.toUpper ∧ Recased text later := by
  obtain ⟨d, later, rfl, hd, hlater⟩ := List.map_eq_cons_iff.mp (h.trans List.map_cons)
  exact ⟨d, later, rfl, hd, hlater⟩

theorem of_append (h : Recased (front ++ back) other) :
    ∃ front' back', other = front' ++ back' ∧ Recased front front' ∧ Recased back back' := by
  obtain ⟨front', back', rfl, hfront, hback⟩ := List.map_eq_append_iff.mp (h.trans List.map_append)
  exact ⟨front', back', rfl, hfront, hback⟩

theorem reverse (h : Recased text other) : Recased text.reverse other.reverse := by
  rw [Recased, List.map_reverse, List.map_reverse, h]

theorem eq_nil_iff (h : Recased text other) : other = [] ↔ text = [] := by
  rw [← List.map_eq_nil_iff, h, List.map_eq_nil_iff]

theorem byteSize_eq (h : Recased text other) : byteSize other = byteSize text := by
  induction text generalizing other with
  | nil => rw [h.eq_nil_iff.mpr rfl]
  | cons c text ih =>
      obtain ⟨d, later, rfl, hd, hlater⟩ := h.of_cons
      rw [byteSize, byteSize, ih hlater, ← utf8Size_toUpper d, hd, utf8Size_toUpper c]

/-- A class without letter case that holds one text holds the other. -/
theorem all (h : Recased text other) (hp : Caseless p) (hall : ∀ c ∈ text, p c) :
    ∀ c ∈ other, p c := by
  induction text generalizing other with
  | nil =>
      rw [h.eq_nil_iff.mpr rfl]
      exact hall
  | cons c text ih =>
      obtain ⟨d, later, rfl, hd, hlater⟩ := h.of_cons
      obtain ⟨hc, htext⟩ := List.forall_mem_cons.mp hall
      refine List.forall_mem_cons.mpr ⟨?_, ih hlater htext⟩
      rwa [← hp d, hd, hp c]

/-- Texts in two cases begin with a character of such a class, or neither does. -/
theorem stops (h : Recased text other) (hp : Caseless p) (hstops : Stops p text) :
    Stops p other := by
  cases text with
  | nil =>
      rw [h.eq_nil_iff.mpr rfl]
      exact stops_nil p
  | cons c text =>
      obtain ⟨d, later, rfl, hd, -⟩ := h.of_cons
      rw [stops_cons] at hstops ⊢
      rwa [← hp d, hd, hp c]

/-- A character that is no letter is at the front of a text in every case. -/
theorem head?_eq (h : Recased text other) (hc : ¬c.isAlpha) (hhead : text.head? = some c) :
    other.head? = some c := by
  obtain ⟨later, rfl⟩ := List.head?_eq_some_iff.mp hhead
  obtain ⟨d, later', rfl, hd, -⟩ := h.of_cons
  rw [List.head?_cons, eq_of_toUpper_eq hd hc]

theorem head?_ne (h : Recased text other) (hc : ¬c.isAlpha) (hne : text.head? ≠ some c) :
    other.head? ≠ some c := fun hhead => hne (h.symm.head?_eq hc hhead)

/-- A text without letters has no other case. -/
theorem eq_of_no_letters (h : Recased text other) (hno : ∀ c ∈ text, ¬c.isAlpha) :
    other = text := by
  induction text generalizing other with
  | nil => exact h.eq_nil_iff.mpr rfl
  | cons c text ih =>
      obtain ⟨d, later, rfl, hd, hlater⟩ := h.of_cons
      obtain ⟨hc, htext⟩ := List.forall_mem_cons.mp hno
      rw [eq_of_toUpper_eq hd hc, ih hlater htext]

/-- A tight text is tight in every case. -/
theorem tight (h : Recased text other) (htight : Tight text) : Tight other where
  no_lineFeed hmem := by
    have hall : ∀ c ∈ text, !decide (c = '\n') := by
      intro c hc
      rw [Bool.not_eq_true', decide_eq_false_iff_not]
      rintro rfl
      exact htight.no_lineFeed hc
    have hcaseless : Caseless (fun c => !decide (c = '\n')) := fun c =>
      congrArg not (caseless_eq (by decide) c)
    exact absurd (h.all hcaseless hall '\n' hmem) (by decide)
  ne_nil hnil := htight.ne_nil (h.eq_nil_iff.mp hnil)
  head_visible := h.stops caseless_isBlank htight.head_visible
  last_visible := h.reverse.stops caseless_isBlank htight.last_visible

end Recased

/-! ## Changing a text by its positions -/

/-- A text with each character changed, by the byte position that it has. -/
def mapFrom (f : Nat → Char → Char) : Nat → List Char → List Char
  | _, [] => []
  | start, c :: text => f start c :: mapFrom f (start + c.utf8Size) text

section Positions

variable {f : Nat → Char → Char}

theorem mapFrom_append (start : Nat) (a b : List Char) :
    mapFrom f start (a ++ b) = mapFrom f start a ++ mapFrom f (start + byteSize a) b := by
  induction a generalizing start with
  | nil => rfl
  | cons c a ih =>
      rw [List.cons_append, mapFrom, mapFrom, ih, byteSize, Nat.add_assoc, List.cons_append]

/-- A text whose characters change no more than their case is in another case. -/
theorem recased_mapFrom (h : ∀ i c, (f i c).toUpper = c.toUpper) (start : Nat)
    (text : List Char) : Recased text (mapFrom f start text) := by
  induction text generalizing start with
  | nil => rfl
  | cons c text ih =>
      rw [Recased, mapFrom, List.map_cons, List.map_cons, h, ih]

/-- A text stays if its characters do. -/
theorem mapFrom_eq_self {start : Nat} {text : List Char}
    (h : ∀ i c, start ≤ i → i < start + byteSize text → f i c = c) :
    mapFrom f start text = text := by
  induction text generalizing start with
  | nil => rfl
  | cons c text ih =>
      have hpos := c.utf8Size_pos
      rw [byteSize] at h
      rw [mapFrom, h start c (Nat.le_refl start) (by omega), ih]
      exact fun i d hi hlt => h i d (by omega) (by omega)

end Positions

end LineBasic.Text
