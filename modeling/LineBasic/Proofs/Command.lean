import LineBasic.Proofs.Munching

/-!
# Texts that are one keyword

A command is recognised by its tokens. Of a trimmed text they are one keyword exactly if the text is
that keyword in some letter case: nothing of the text is left for blanks, and the keyword is the
longest token at its front.

## Main results

* `Munch.front_keyword`: the text that a keyword is taken from;
* `Token.ofText_eq_keyword_iff`: the trimmed texts that are one keyword.
-/

namespace LineBasic

namespace Text

/-- What is a capital letter in upper case is a letter. -/
theorem isAlpha_of_isUpper_toUpper {c : Char} (h : c.toUpper.isUpper) : c.isAlpha := by
  by_cases hlower : c.isLower
  · exact isAlpha_iff.mpr (.inr (isLower_iff.mp hlower))
  · rw [toUpper_of_not_isLower hlower] at h
    exact isAlpha_iff.mpr (.inl (isUpper_iff.mp h))

end Text

theorem isBlank_of_isGap {c : Char} (h : isGap c) : Text.isBlank c := by
  simp only [isGap, Bool.or_eq_true, decide_eq_true_eq] at h
  rcases h with (rfl | rfl) | rfl
  · decide
  · decide
  · decide

theorem isGap_of_visible {c : Char} (h : Text.isBlank c = false) : isGap c = false := by
  rw [Bool.eq_false_iff]
  intro hgap
  rw [isBlank_of_isGap hgap] at h
  cases h

theorem Keyword.isUpper_of_mem {k : Keyword} {c : Char} (h : c ∈ k.word.toList) : c.isUpper := by
  have hall : k.word.toList.all Char.isUpper := by cases k <;> decide
  exact List.all_eq_true.mp hall c h

namespace Munch

/-- A keyword is taken from a text that is the keyword in some letter case. -/
theorem front_keyword {c : Char} {text : List Char} {k : Keyword} (hgap : isGap c = false)
    (h : (front c text).token = .keyword k) :
    (front c text).taken.map Char.toUpper = k.word.toList := by
  have hmunched := front_munched hgap text
  rw [h] at hmunched
  exact hmunched.2

/-- Letters and digits are one word. -/
theorem word_of_isAlphanum {text : List Char} (h : ∀ c ∈ text, c.isAlphanum) :
    word text = ⟨.ofWord (String.ofList (text.map Char.toUpper)), text, []⟩ := by
  have htake := Text.takeWhile_run h (Text.stops_nil _)
  have hdrop := Text.dropWhile_run h (Text.stops_nil _)
  rw [List.append_nil] at htake hdrop
  unfold word
  rw [htake, hdrop]

end Munch

namespace Token

/-- A text without tokens is blank. -/
theorem isGap_of_ofText_nil {text : List Char} (h : ofText text = []) : ∀ c ∈ text, isGap c := by
  have hdrop : text.dropWhile isGap = [] := by
    cases hvisible : text.dropWhile isGap with
    | nil => rfl
    | cons c rest =>
        rw [ofText_of_dropWhile hvisible] at h
        cases h
  have htext := List.takeWhile_append_dropWhile (p := isGap) (l := text)
  rw [hdrop, List.append_nil] at htext
  intro c hc
  exact List.all_eq_true.mp List.all_takeWhile c (htext ▸ hc)

/-- A keyword in any letter case has the keyword for its token. -/
theorem ofText_of_map_toUpper {text : List Char} {k : Keyword}
    (h : text.map Char.toUpper = k.word.toList) : ofText text = [.keyword k] := by
  have halpha : ∀ c ∈ text, c.isAlpha := by
    intro c hc
    have hmem : c.toUpper ∈ k.word.toList := h ▸ List.mem_map_of_mem hc
    exact Text.isAlpha_of_isUpper_toUpper (Keyword.isUpper_of_mem hmem)
  have halphanum : ∀ c ∈ text, c.isAlphanum := fun c hc =>
    Text.isAlphanum_iff.mpr (.inl (halpha c hc))
  cases text with
  | nil =>
      have hempty : k.word.toList ≠ [] := by cases k <;> decide
      exact absurd h.symm hempty
  | cons c later =>
      have hword := Munch.word_of_isAlphanum halphanum
      rw [← Munch.front_of_isAlpha (halpha c List.mem_cons_self), h, String.ofList_toList,
        ofWord_keyword] at hword
      rw [ofText_of_front (isGap_of_isAlphanum (halphanum c List.mem_cons_self)) hword, ofText_nil]

/-- **A trimmed text is one keyword** exactly if it is the keyword in some letter case. -/
theorem ofText_eq_keyword_iff {text : List Char} (hfront : Text.Stops Text.isBlank text)
    (hback : Text.Stops Text.isBlank text.reverse) (k : Keyword) :
    ofText text = [.keyword k] ↔ text.map Char.toUpper = k.word.toList := by
  refine ⟨fun h => ?_, ofText_of_map_toUpper⟩
  cases text with
  | nil =>
      rw [ofText_nil] at h
      cases h
  | cons c later =>
      have htext := Munch.front_append c later
      have hgap := isGap_of_visible (Text.stops_cons.mp hfront)
      rw [ofText_of_front hgap rfl] at h
      injection h with htoken hrest
      -- Blanks behind the keyword would be at the end of the text.
      have hnil : (Munch.front c later).rest = [] := by
        rw [← htext] at hback
        exact Text.eq_nil_of_stops_reverse hback fun d hd =>
          isBlank_of_isGap (isGap_of_ofText_nil hrest d hd)
      rw [hnil, List.append_nil] at htext
      rw [← htext]
      exact Munch.front_keyword hgap htoken

end Token

end LineBasic
