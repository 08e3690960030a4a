import LineBasic.Proofs.Lexing
import LineBasic.Proofs.Text.Trim

/-!
# The longest token

The token at the front of a text is the longest one that begins there. What that comes to is said
for each kind of token by the characters it consists of, and by what may not follow them: a word
runs on through letters and digits to its first dollar sign, a number through digits and one point,
and the sign of a comparison takes an equals sign or a `>` that it can be written with. What begins
no token stands alone.

So the token, its text and the text behind it determine each other: a text has one longest token at
its front, and that is the one that is cut off.

## Main definitions

* `Token.Munched`: a token that is as long as it can be.

## Main results

* `Munch.front_munched`: the token that is cut off is as long as it can be;
* `Token.munched_of_mem_ofText`: so is each token of a text;
* `Token.Munched.front_eq`: and there is no other at the front.
-/

namespace LineBasic

/-! ## What a token consists of, and where it ends -/

/-- The characters that some token begins with. -/
def BeginsToken (c : Char) : Prop :=
  c.isAlphanum ∨ c = '"' ∨ c ∈ ['+', '-', '*', '/', '=', '<', '>', '(', ')', ',']

/-- What follows an operator does not make it a longer one. -/
def Operator.Closed (rest : List Char) : Operator → Prop
  | .less => rest.head? ≠ some '=' ∧ rest.head? ≠ some '>'
  | .greater => rest.head? ≠ some '='
  | _ => True

/-- A token that is as long as it can be, of its text and what is behind it. -/
def Token.Munched (rest text : List Char) : Token → Prop
  | .keyword k => IsWordBefore rest text ∧ text.map Char.toUpper = k.word.toList
  | .name word =>
    IsWordBefore rest text ∧ text.map Char.toUpper = word.toList ∧ ∀ k : Keyword, k.word ≠ word
  | .number digits => IsNumberBefore rest text ∧ text = digits.toList
  | .text content => IsQuotable content ∧ text = '"' :: content.toList ++ ['"']
  | .operator op => text = op.symbol.toList ∧ op.Closed rest
  | .leftParen => text = ['(']
  | .rightParen => text = [')']
  | .comma => text = [',']
  | .stray c => text = [c] ∧ isGap c = false ∧ ¬BeginsToken c
  | .unterminated =>
    ∃ content, text = '"' :: content ∧ (∀ c ∈ content, c ≠ '"' ∧ c ≠ '\n') ∧
      (rest = [] ∨ rest.head? = some '\n')

/-! ## Words -/

/-- A word is a keyword if it is one in upper case, and else a name. -/
theorem Token.munched_ofWord {rest text : List Char} (h : IsWordBefore rest text) :
    (Token.ofWord (String.ofList (text.map Char.toUpper))).Munched rest text := by
  unfold ofWord
  split
  · next k hfound =>
    have hword : k.word = String.ofList (text.map Char.toUpper) := by
      simpa using List.find?_some hfound
    exact ⟨h, by rw [hword, String.toList_ofList]⟩
  · next hnone =>
    refine ⟨h, String.toList_ofList.symm, fun k => ?_⟩
    simpa using List.find?_eq_none.mp hnone k k.mem_all

namespace Munch

/-- The token of a word is that of its text in upper case. -/
theorem token_word (text : List Char) :
    (word text).token = .ofWord (String.ofList ((word text).taken.map Char.toUpper)) := by
  unfold word
  dsimp only
  split <;> rfl

/-- A word that is cut off is as long as it can be. -/
theorem word_munched {c : Char} (h : c.isAlpha) (text : List Char) :
    (word (c :: text)).token.Munched (word (c :: text)).rest (word (c :: text)).taken := by
  have halphanum : c.isAlphanum := Text.isAlphanum_iff.mpr (.inl h)
  have hstem := List.all_eq_true.mp (List.all_takeWhile (p := Char.isAlphanum) (l := text))
  have hstops := Text.stops_dropWhile Char.isAlphanum text
  rw [token_word]
  apply Token.munched_ofWord
  unfold word
  rw [List.takeWhile_cons_of_pos halphanum, List.dropWhile_cons_of_pos halphanum]
  dsimp only
  split
  · have hclosed := List.getLast?_concat (l := c :: text.takeWhile Char.isAlphanum) (a := '$')
    exact ⟨⟨c, _, h, hstem, .inr rfl⟩, fun hopen => absurd hclosed hopen⟩
  · next hdollar =>
    refine ⟨⟨c, _, h, hstem, .inl rfl⟩, fun _ => ⟨hstops, fun hhead => ?_⟩⟩
    obtain ⟨later, hlater⟩ := List.head?_eq_some_iff.mp hhead
    exact hdollar later hlater

/-! ## Numbers -/

/-- A number that is cut off is as long as it can be. -/
theorem number_munched {c : Char} (h : c.isDigit) (text : List Char) :
    (number (c :: text)).token.Munched (number (c :: text)).rest (number (c :: text)).taken := by
  have hdigits (t : List Char) : ∀ d ∈ t.takeWhile Char.isDigit, d.isDigit :=
    List.all_eq_true.mp List.all_takeWhile
  have hpointless (t : List Char) : '.' ∉ t.takeWhile Char.isDigit := fun hmem =>
    absurd (hdigits t '.' hmem) (by decide)
  have hstops (t : List Char) := Text.stops_dropWhile Char.isDigit t
  have hpoint := hpointless (c :: text)
  unfold number
  rw [List.takeWhile_cons_of_pos h] at hpoint ⊢
  rw [List.dropWhile_cons_of_pos h]
  dsimp only
  split
  · next rest hrest =>
    refine ⟨⟨⟨c, _, rfl, h, fun d hd => ?_⟩, ?_, hstops rest, fun hno => ?_⟩,
      String.toList_ofList.symm⟩
    · rcases List.mem_append.mp hd with hd | hd
      · exact .inl (hdigits text d hd)
      · rcases List.mem_cons.mp hd with rfl | hd
        · exact .inr rfl
        · exact .inl (hdigits rest d hd)
    · apply Nat.le_of_eq
      rw [List.count_append, List.count_cons_self, List.count_eq_zero.mpr hpoint,
        List.count_eq_zero.mpr (hpointless rest)]
    · exact absurd (List.mem_append_right _ List.mem_cons_self) hno
  · next hnot =>
    refine ⟨⟨⟨c, _, rfl, h, fun d hd => .inl (hdigits text d hd)⟩, ?_, hstops text,
      fun _ hhead => ?_⟩, String.toList_ofList.symm⟩
    · rw [List.count_eq_zero.mpr hpoint]
      exact Nat.zero_le 1
    · obtain ⟨later, hlater⟩ := List.head?_eq_some_iff.mp hhead
      exact hnot later hlater

/-! ## String literals -/

/-- A string literal that is cut off ends at its closing quote, or where the line does. -/
theorem string_munched (text : List Char) :
    (string text).token.Munched (string text).rest (string text).taken := by
  have hinside : ∀ c ∈ text.takeWhile (fun c => c ≠ '"' && c ≠ '\n'), c ≠ '"' ∧ c ≠ '\n' := by
    intro c hc
    simpa using List.all_eq_true.mp List.all_takeWhile c hc
  have hstops := Text.stops_dropWhile (fun c => c ≠ '"' && c ≠ '\n') text
  unfold string
  dsimp only
  split
  · exact ⟨by rwa [IsQuotable, String.toList_ofList], by rw [String.toList_ofList]⟩
  · next hquote =>
    refine ⟨_, rfl, hinside, ?_⟩
    generalize text.dropWhile (fun c => c ≠ '"' && c ≠ '\n') = rest at hstops hquote
    cases rest with
    | nil => exact .inl rfl
    | cons c later =>
        have hc : c = '"' ∨ c = '\n' := by
          have hfalse := Text.stops_cons.mp hstops
          simp only [Bool.and_eq_false_iff, decide_eq_false_iff_not, Decidable.not_not] at hfalse
          exact hfalse
        rcases hc with rfl | rfl
        · exact absurd rfl (hquote later)
        · exact .inr rfl

/-- A literal without a closing quote is cut off up to the end of its line. -/
theorem string_open {content rest : List Char} (h : ∀ c ∈ content, c ≠ '"' ∧ c ≠ '\n')
    (hrest : rest = [] ∨ rest.head? = some '\n') :
    string (content ++ rest) = ⟨.unterminated, '"' :: content, rest⟩ := by
  have hinside : ∀ c ∈ content, (c ≠ '"' && c ≠ '\n') = true := by simpa using h
  have hstops : Text.Stops (fun c => c ≠ '"' && c ≠ '\n') rest := by
    intro c hc
    rcases hrest with rfl | hhead
    · cases hc
    · rw [hhead] at hc
      cases hc
      rfl
  unfold string
  dsimp only
  rw [Text.takeWhile_run hinside hstops, Text.dropWhile_run hinside hstops]
  split
  · rcases hrest with hrest | hrest <;> cases hrest
  · rfl

/-! ## The token at the front -/

/-- An operator of two characters is cut off whole. -/
theorem pair_munched {c : Char} {text : List Char} {token : Token}
    (h : pair? c text.head? = some token) : token.Munched (text.drop 1) (c :: text.take 1) := by
  unfold pair? at h
  split at h
  case h_4 => cases h
  all_goals
    next hnext =>
      obtain ⟨later, rfl⟩ := List.head?_eq_some_iff.mp hnext
      injection h with h
      subst h
      exact ⟨rfl, trivial⟩

/-- One character is cut off if it is no beginning of two. -/
theorem single_munched {c : Char} {text : List Char} {token : Token}
    (hpair : pair? c text.head? = none) (h : single? c = some token) : token.Munched text [c] := by
  have hnext {d : Char} (hd : pair? c (some d) ≠ none) : text.head? ≠ some d := fun hhead =>
    hd (hhead ▸ hpair)
  unfold single? at h
  split at h
  case h_11 => cases h
  all_goals
    injection h with h
    subst h
  case h_6 => exact ⟨rfl, hnext (by decide), hnext (by decide)⟩
  case h_7 => exact ⟨rfl, hnext (by decide)⟩
  case h_8 | h_9 | h_10 => rfl
  all_goals exact ⟨rfl, trivial⟩

theorem front_less {rest : List Char} (h : Operator.Closed rest .less) :
    front '<' rest = ⟨.operator .less, ['<'], rest⟩ := by
  apply front_of_single _ rfl
  unfold pair?
  split
  · next hnext => exact absurd hnext h.1
  · next hnext => exact absurd hnext h.2
  · next hsign _ => exact absurd hsign (by decide)
  · rfl

theorem front_greater {rest : List Char} (h : Operator.Closed rest .greater) :
    front '>' rest = ⟨.operator .greater, ['>'], rest⟩ := by
  apply front_of_single _ rfl
  unfold pair?
  split
  · next hsign _ => exact absurd hsign (by decide)
  · next hsign _ => exact absurd hsign (by decide)
  · next hnext => exact absurd hnext h
  · rfl

theorem single?_eq_none_iff (c : Char) :
    single? c = none ↔ c ∉ ['+', '-', '*', '/', '=', '<', '>', '(', ')', ','] := by
  unfold single?
  split <;> simp_all

theorem pair?_of_not_beginsToken {c : Char} (h : ¬BeginsToken c) (next : Option Char) :
    pair? c next = none := by
  unfold pair?
  split
  case h_4 => rfl
  all_goals exact absurd (.inr (.inr (by decide))) h

/-- What begins no token is cut off alone. -/
theorem front_of_not_beginsToken {c : Char} (h : ¬BeginsToken c) (text : List Char) :
    front c text = ⟨.stray c, [c], text⟩ := by
  have hpair := pair?_of_not_beginsToken h text.head?
  obtain ⟨halphanum, hother⟩ := not_or.mp h
  obtain ⟨hquote, hsingle⟩ := not_or.mp hother
  obtain ⟨halpha, hdigit⟩ := not_or.mp (mt Text.isAlphanum_iff.mpr halphanum)
  unfold front
  rw [hpair, (single?_eq_none_iff c).mpr hsingle]
  dsimp only
  rw [if_neg hquote, if_neg hdigit, if_neg halpha]

/-- **The token that is cut off is as long as it can be.** -/
theorem front_munched {c : Char} (hgap : isGap c = false) (text : List Char) :
    (front c text).token.Munched (front c text).rest (front c text).taken := by
  cases hpair : pair? c text.head? with
  | some token =>
      simp only [front, hpair]
      exact pair_munched hpair
  | none =>
      cases hsingle : single? c with
      | some token =>
          simp only [front, hpair, hsingle]
          exact single_munched hpair hsingle
      | none =>
          simp only [front, hpair, hsingle]
          split
          · exact string_munched text
          · next hquote =>
            split
            · next hdigit => exact number_munched hdigit text
            · next hdigit =>
              split
              · next halpha => exact word_munched halpha text
              · next halpha =>
                have halphanum : ¬c.isAlphanum :=
                  mt Text.isAlphanum_iff.mp (not_or.mpr ⟨halpha, hdigit⟩)
                have hsymbol := (single?_eq_none_iff c).mp hsingle
                exact ⟨rfl, hgap, not_or.mpr ⟨halphanum, not_or.mpr ⟨hquote, hsymbol⟩⟩⟩

end Munch

/-- Each token of a text has been cut off somewhere, as long as it could be. -/
theorem Token.munched_of_mem_ofText {text : List Char} {token : Token}
    (h : token ∈ Token.ofText text) : ∃ rest lexeme, token.Munched rest lexeme := by
  induction hlength : text.length using Nat.strongRecOn generalizing text with
  | ind length ih =>
      subst hlength
      have hstops := Text.stops_dropWhile isGap text
      cases htext : text.dropWhile isGap with
      | nil => simp [ofText_of_blank htext] at h
      | cons c rest =>
          rw [htext] at hstops
          rw [ofText_of_dropWhile htext] at h
          rcases List.mem_cons.mp h with rfl | hlater
          · exact ⟨_, _, Munch.front_munched (Text.stops_cons.mp hstops) rest⟩
          · have hdropped := (List.dropWhile_sublist (l := text) isGap).length_le
            have htaken := Munch.front_rest_length_le c rest
            rw [htext, List.length_cons] at hdropped
            exact ih (Munch.front c rest).rest.length (by omega) hlater rfl

/-! ## The only one -/

/-- In upper case, a word in front of any text is a word. -/
theorem IsWordBefore.isWord {rest text : List Char} (h : IsWordBefore rest text) :
    IsWord (text.map Char.toUpper) := by
  obtain ⟨first, stem, hfirst, hstem, htext⟩ := h.spelled
  refine ⟨first.toUpper, stem.map Char.toUpper, Text.isUpper_toUpper hfirst, fun c hc => ?_, ?_⟩
  · obtain ⟨original, hmem, rfl⟩ := List.mem_map.mp hc
    exact Text.isUpper_or_isDigit_toUpper (hstem original hmem)
  · rcases htext with rfl | rfl
    · exact .inl rfl
    · exact .inr (by simp)

theorem IsWordBefore.exists_cons {rest text : List Char} (h : IsWordBefore rest text) :
    ∃ c later, text = c :: later ∧ c.isAlpha := by
  obtain ⟨first, stem, hfirst, -, htext | htext⟩ := h.spelled
  · exact ⟨first, stem, htext, hfirst⟩
  · exact ⟨first, _, htext, hfirst⟩

/-- A word as long as it can be is the token at the front. -/
theorem IsWordBefore.front_eq {rest text : List Char} {word : String} (h : IsWordBefore rest text)
    (hword : text.map Char.toUpper = word.toList) :
    ∃ c later, text = c :: later ∧ isGap c = false ∧
      Munch.front c (later ++ rest) = ⟨.ofWord word, text, rest⟩ := by
  obtain ⟨c, later, rfl, halpha⟩ := h.exists_cons
  have hrun := Munch.word_run h
  rw [hword, String.ofList_toList] at hrun
  refine ⟨c, later, rfl, isGap_of_isAlphanum (Text.isAlphanum_iff.mpr (.inl halpha)), ?_⟩
  rw [Munch.front_of_isAlpha halpha]
  exact hrun

/-- **The longest token is the only one that is cut off.** A token that is as long as it can be, in
front of what is behind it, is the token that is cut off there. -/
theorem Token.Munched.front_eq {rest text : List Char} {token : Token}
    (h : token.Munched rest text) :
    ∃ c later, text = c :: later ∧ isGap c = false ∧
      Munch.front c (later ++ rest) = ⟨token, text, rest⟩ := by
  cases token with
  | keyword k =>
      obtain ⟨hword, hupper⟩ := h
      rw [← ofWord_keyword]
      exact hword.front_eq hupper
  | name word =>
      obtain ⟨hword, hupper, hnot⟩ := h
      rw [← ofWord_name hnot]
      exact hword.front_eq hupper
  | number digits =>
      obtain ⟨hnumber, rfl⟩ := h
      obtain ⟨c, later, htext, hdigit, -⟩ := hnumber.spelled
      have hrun := Munch.number_run hnumber
      rw [String.ofList_toList, htext, List.cons_append] at hrun
      refine ⟨c, later, htext, isGap_of_isAlphanum (Text.isAlphanum_iff.mpr (.inr hdigit)), ?_⟩
      rw [Munch.front_of_isDigit hdigit, htext]
      exact hrun
  | text content =>
      obtain ⟨hcontent, rfl⟩ := h
      have hstring := Munch.string_append_quote hcontent rest
      rw [String.ofList_toList] at hstring
      refine ⟨'"', content.toList ++ ['"'], rfl, by decide, ?_⟩
      rw [List.append_assoc]
      exact hstring
  | unterminated =>
      obtain ⟨content, rfl, hcontent, hrest⟩ := h
      exact ⟨'"', content, rfl, by decide, Munch.string_open hcontent hrest⟩
  | stray c =>
      obtain ⟨rfl, hgap, hbegins⟩ := h
      exact ⟨c, [], rfl, hgap, Munch.front_of_not_beginsToken hbegins rest⟩
  | operator op =>
      obtain ⟨rfl, hclosed⟩ := h
      cases op with
      | less => exact ⟨'<', [], rfl, by decide, Munch.front_less hclosed⟩
      | greater => exact ⟨'>', [], rfl, by decide, Munch.front_greater hclosed⟩
      | lessEqual => exact ⟨'<', ['='], rfl, by decide, rfl⟩
      | greaterEqual => exact ⟨'>', ['='], rfl, by decide, rfl⟩
      | notEqual => exact ⟨'<', ['>'], rfl, by decide, rfl⟩
      | add => exact ⟨'+', [], rfl, by decide, rfl⟩
      | subtract => exact ⟨'-', [], rfl, by decide, rfl⟩
      | multiply => exact ⟨'*', [], rfl, by decide, rfl⟩
      | divide => exact ⟨'/', [], rfl, by decide, rfl⟩
      | equal => exact ⟨'=', [], rfl, by decide, rfl⟩
  | leftParen =>
      subst h
      exact ⟨'(', [], rfl, by decide, rfl⟩
  | rightParen =>
      subst h
      exact ⟨')', [], rfl, by decide, rfl⟩
  | comma =>
      subst h
      exact ⟨',', [], rfl, by decide, rfl⟩

end LineBasic
