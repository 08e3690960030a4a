import LineBasic.Proofs.Number.Literal
import LineBasic.Proofs.Text.Letters
import LineBasic.Proofs.WellFormed

/-!
# The tokens of texts put together

A text that consists of the text of one token and of a rest has that token, followed by the tokens
of the rest. Delimiters, signs and string literals need nothing of the rest. A word, a number and an
operator run on as long as they can, so there the rest must *break*: it must not begin with a
character that could belong to what stands before it.

## Main definitions

* `IsWordBefore`, `IsNumberBefore`: words and numbers that are as long as they can be;
* `Breaks`: rests that no token runs on into.

## Main results

* `Munch.word_run`, `Munch.number_run`: words and numbers are cut off whole;
* `Token.ofText_gap`: blanks in front of a text do not matter;
* `Token.ofText_string`, `Token.ofText_decimal`, `Token.ofText_word`, `Token.ofText_operator`: the
  token at the front of a text.
-/

namespace LineBasic

/-- Whether a character may belong to a word, a number or an operator that began before it. -/
def continues (c : Char) : Bool := c.isAlphanum || c = '$' || c = '.' || c = '=' || c = '>'

/-- A text that is no part of the token before it. -/
def Breaks (rest : List Char) : Prop := Text.Stops continues rest

namespace Breaks

theorem nil : Breaks [] := Text.stops_nil _

theorem cons {c : Char} (h : continues c = false) (rest : List Char) : Breaks (c :: rest) :=
  Text.stops_cons.mpr h

theorem stops_isAlphanum {rest : List Char} (h : Breaks rest) :
    Text.Stops Char.isAlphanum rest := by
  intro c hc
  have hcontinues := h c hc
  simp only [continues, Bool.or_eq_false_iff] at hcontinues
  exact hcontinues.1.1.1.1

theorem stops_isDigit {rest : List Char} (h : Breaks rest) : Text.Stops Char.isDigit rest := by
  intro c hc
  have halphanum := h.stops_isAlphanum c hc
  rw [Char.isAlphanum, Bool.or_eq_false_iff] at halphanum
  exact halphanum.2

/-- The characters that run a token on are not at the front. -/
theorem head?_ne {rest : List Char} {c : Char} (h : Breaks rest) (hc : continues c) :
    rest.head? ≠ some c := by
  intro hhead
  rw [h c hhead] at hc
  cases hc

end Breaks

/-- A letter or a digit is no blank. -/
theorem isGap_of_isAlphanum {c : Char} (h : c.isAlphanum) : isGap c = false := by
  rw [Bool.eq_false_iff]
  intro hgap
  simp only [isGap, Bool.or_eq_true, decide_eq_true_eq] at hgap
  rcases hgap with (rfl | rfl) | rfl
  · exact absurd h (by decide)
  · exact absurd h (by decide)
  · exact absurd h (by decide)

/-! ## Words and numbers as long as they can be -/

/-- A letter, and letters and digits with perhaps a dollar sign at the end. If it is not closed by a
dollar sign, none of them follows. -/
structure IsWordBefore (rest text : List Char) : Prop where
  spelled : ∃ first stem, first.isAlpha ∧ (∀ c ∈ stem, c.isAlphanum) ∧
    (text = first :: stem ∨ text = first :: (stem ++ ['$']))
  longest : text.getLast? ≠ some '$' → Text.Stops Char.isAlphanum rest ∧ rest.head? ≠ some '$'

/-- A digit, and digits and points, with one point at most. No digit follows, and no point unless
there is one already. -/
structure IsNumberBefore (rest text : List Char) : Prop where
  spelled : ∃ first later, text = first :: later ∧ first.isDigit ∧
    ∀ c ∈ later, c.isDigit ∨ c = '.'
  one_point : text.count '.' ≤ 1
  longest : Text.Stops Char.isDigit rest ∧ ('.' ∉ text → rest.head? ≠ some '.')

/-! ## The token at the front -/

namespace Munch

/-- No operator and no delimiter begins with a letter or a digit. -/
theorem pair?_of_isAlphanum {c : Char} (h : c.isAlphanum) (next : Option Char) :
    pair? c next = none := by
  unfold pair?
  split
  · exact absurd h (by decide)
  · exact absurd h (by decide)
  · exact absurd h (by decide)
  · rfl

theorem single?_of_isAlphanum {c : Char} (h : c.isAlphanum) : single? c = none := by
  unfold single?
  split
  case h_11 => rfl
  all_goals exact absurd h (by decide)

theorem front_of_single {c : Char} {text : List Char} {token : Token}
    (hpair : pair? c text.head? = none) (hsingle : single? c = some token) :
    front c text = ⟨token, [c], text⟩ := by
  unfold front
  rw [hpair, hsingle]

theorem front_of_isDigit {c : Char} {text : List Char} (h : c.isDigit) :
    front c text = number (c :: text) := by
  have halphanum : c.isAlphanum := Text.isAlphanum_iff.mpr (.inr h)
  have hquote : c ≠ '"' := fun heq => absurd (heq ▸ h) (by decide)
  unfold front
  rw [pair?_of_isAlphanum halphanum, single?_of_isAlphanum halphanum]
  dsimp only
  rw [if_neg hquote, if_pos h]

theorem front_of_isAlpha {c : Char} {text : List Char} (h : c.isAlpha) :
    front c text = word (c :: text) := by
  have halphanum : c.isAlphanum := Text.isAlphanum_iff.mpr (.inl h)
  have hquote : c ≠ '"' := fun heq => absurd (heq ▸ h) (by decide)
  have hdigit : ¬c.isDigit := by
    rw [Text.isDigit_iff]
    have hrange := Text.isAlpha_iff.mp h
    omega
  unfold front
  rw [pair?_of_isAlphanum halphanum, single?_of_isAlphanum halphanum]
  dsimp only
  rw [if_neg hquote, if_neg hdigit, if_pos h]

/-- A literal ends at the first quote. -/
theorem string_append_quote {content : List Char} (h : ∀ c ∈ content, c ≠ '"' ∧ c ≠ '\n')
    (rest : List Char) :
    string (content ++ '"' :: rest) =
      ⟨.text (String.ofList content), '"' :: content ++ ['"'], rest⟩ := by
  have hinside : ∀ c ∈ content, (c ≠ '"' && c ≠ '\n') = true := by simpa using h
  have hquote : Text.Stops (fun c => c ≠ '"' && c ≠ '\n') ('"' :: rest) := by simp
  unfold string
  dsimp only
  rw [Text.takeWhile_run hinside hquote, Text.dropWhile_run hinside hquote]
  rfl

/-- A word as long as it can be is cut off whole. -/
theorem word_run {rest text : List Char} (h : IsWordBefore rest text) :
    word (text ++ rest) = ⟨.ofWord (String.ofList (text.map Char.toUpper)), text, rest⟩ := by
  obtain ⟨⟨first, stem, hfirst, hstem, htext⟩, hlongest⟩ := h
  have halphanum : ∀ c ∈ first :: stem, c.isAlphanum :=
    List.forall_mem_cons.mpr ⟨Text.isAlphanum_iff.mpr (.inl hfirst), hstem⟩
  unfold word
  rcases htext with rfl | rfl
  · have hopen : (first :: stem).getLast? ≠ some '$' := fun hlast =>
      absurd (halphanum '$' (List.mem_of_getLast? hlast)) (by decide)
    obtain ⟨hstops, hdollar⟩ := hlongest hopen
    rw [Text.takeWhile_run halphanum hstops, Text.dropWhile_run halphanum hstops]
    dsimp only
    split
    · exact absurd rfl hdollar
    · rfl
  · have hdollar : Text.Stops Char.isAlphanum ('$' :: rest) := Text.stops_cons.mpr (by decide)
    have hsplit : first :: (stem ++ ['$']) ++ rest = (first :: stem) ++ '$' :: rest := by simp
    rw [hsplit, Text.takeWhile_run halphanum hdollar, Text.dropWhile_run halphanum hdollar]
    rfl

/-- A number as long as it can be is cut off whole. -/
theorem number_run {rest text : List Char} (h : IsNumberBefore rest text) :
    number (text ++ rest) = ⟨.number (String.ofList text), text, rest⟩ := by
  obtain ⟨⟨first, later, htext, hfirst, hlater⟩, hcount, hstops, hpoint⟩ := h
  have hmember : ∀ c ∈ text, c.isDigit ∨ c = '.' := by
    rw [htext]
    exact List.forall_mem_cons.mpr ⟨.inl hfirst, hlater⟩
  have hdigits {part : List Char} (hpart : part ⊆ text) (hno : '.' ∉ part) :
      ∀ c ∈ part, c.isDigit := by
    intro c hc
    rcases hmember c (hpart hc) with hdigit | rfl
    · exact hdigit
    · exact absurd hc hno
  unfold number
  by_cases hmem : '.' ∈ text
  · obtain ⟨whole, fraction, hsplit⟩ := List.append_of_mem hmem
    have hcounts : whole.count '.' + (fraction.count '.' + 1) ≤ 1 := by
      rwa [hsplit, List.count_append, List.count_cons_self] at hcount
    have hwhole : ∀ c ∈ whole, c.isDigit :=
      hdigits (by simp [hsplit]) (List.count_eq_zero.mp (by omega))
    have hfraction : ∀ c ∈ fraction, c.isDigit :=
      hdigits (by simp [hsplit]) (List.count_eq_zero.mp (by omega))
    have hstop : Text.Stops Char.isDigit ('.' :: (fraction ++ rest)) :=
      Text.stops_cons.mpr (by decide)
    have hwholeText : text ++ rest = whole ++ '.' :: (fraction ++ rest) := by simp [hsplit]
    rw [hwholeText, Text.takeWhile_run hwhole hstop, Text.dropWhile_run hwhole hstop]
    simp only [Text.takeWhile_run hfraction hstops, Text.dropWhile_run hfraction hstops, ← hsplit]
  · have hall := hdigits (fun _ hc => hc) hmem
    rw [Text.takeWhile_run hall hstops, Text.dropWhile_run hall hstops]
    dsimp only
    split
    · exact absurd rfl (hpoint hmem)
    · rfl

end Munch

/-- A decimal in front of a text that breaks is as long as it can be. -/
theorem IsDecimal.isNumberBefore {text whole fraction rest : List Char}
    (h : IsDecimal text whole fraction) (hrest : Breaks rest) : IsNumberBefore rest text := by
  have hpointless {digits : List Char} (hdigits : ∀ c ∈ digits, c.isDigit) : '.' ∉ digits :=
    fun hmem => absurd (hdigits '.' hmem) (by decide)
  have hwhole := List.count_eq_zero.mpr (hpointless h.whole_digits)
  have hfraction := List.count_eq_zero.mpr (hpointless h.fraction_digits)
  have htext := h.text_eq
  have hmember : ∀ c ∈ text, c.isDigit ∨ c = '.' := by
    intro c hc
    rw [htext] at hc
    rcases List.mem_append.mp hc with hc | hc
    · exact .inl (h.whole_digits c hc)
    · split at hc
      · cases hc
      · rcases List.mem_cons.mp hc with rfl | hc
        · exact .inr rfl
        · exact .inl (h.fraction_digits c hc)
  obtain ⟨first, later, hfirst⟩ := List.exists_cons_of_ne_nil h.whole_ne_nil
  have hcons : text = first :: (later ++ if fraction = [] then [] else '.' :: fraction) := by
    rw [htext, hfirst, List.cons_append]
  refine ⟨⟨first, _, hcons, h.whole_digits first (by simp [hfirst]), fun c hc => ?_⟩, ?_,
    hrest.stops_isDigit, fun _ => hrest.head?_ne (by decide)⟩
  · exact hmember c (hcons ▸ List.mem_cons_of_mem first hc)
  · rw [htext, List.count_append, hwhole]
    split
    · simp
    · simp [hfraction]

/-- A word in upper case in front of a text that breaks is as long as it can be. -/
theorem IsWord.isWordBefore {text rest : List Char} (h : IsWord text) (hrest : Breaks rest) :
    IsWordBefore rest text := by
  obtain ⟨first, stem, hfirst, hstem, htext⟩ := h
  have halpha : first.isAlpha := Text.isAlpha_iff.mpr (.inl (Text.isUpper_iff.mp hfirst))
  have halphanum : ∀ c ∈ stem, c.isAlphanum := fun c hc =>
    Text.isAlphanum_of_isUpper_or_isDigit (hstem c hc)
  exact ⟨⟨first, stem, halpha, halphanum, htext⟩,
    fun _ => ⟨hrest.stops_isAlphanum, hrest.head?_ne (by decide)⟩⟩

/-- A word in upper case is its own upper case. -/
theorem IsWord.map_toUpper {text : List Char} (h : IsWord text) :
    text.map Char.toUpper = text := by
  obtain ⟨first, stem, hfirst, hstem, htext⟩ := h
  have hself : ∀ c ∈ first :: stem, c.toUpper = c :=
    List.forall_mem_cons.mpr ⟨Text.toUpper_eq_self (.inl hfirst),
      fun c hc => Text.toUpper_eq_self (hstem c hc)⟩
  have hrun : (first :: stem).map Char.toUpper = first :: stem := by
    rw [List.map_congr_left hself, List.map_id']
  rcases htext with rfl | rfl
  · exact hrun
  · rw [← List.cons_append, List.map_append, hrun]
    rfl

/-! ## The tokens of a text -/

namespace Segmentation

/-- A text of blanks has no lexemes. -/
theorem lexemes_of_blank {text : List Char} (h : text.dropWhile isGap = []) :
    (ofText text).lexemes = [] := by
  rw [ofText]
  split
  · rfl
  · next heq => simp [h] at heq

/-- The first lexeme of a text begins with its blanks. -/
theorem lexemes_of_dropWhile {text rest : List Char} {c : Char}
    (h : text.dropWhile isGap = c :: rest) :
    (ofText text).lexemes =
      ⟨text.takeWhile isGap, (Munch.front c rest).taken, (Munch.front c rest).token⟩ ::
        (ofText (Munch.front c rest).rest).lexemes := by
  rw [ofText]
  split
  · next heq => simp [h] at heq
  · next heq =>
    rw [h] at heq
    injection heq with hfirst hrest
    subst hfirst hrest
    rfl

end Segmentation

namespace Token

/-- A text of blanks has no tokens. -/
theorem ofText_of_blank {text : List Char} (h : text.dropWhile isGap = []) : ofText text = [] := by
  rw [ofText, Segmentation.tokens, Segmentation.lexemes_of_blank h, List.map_nil]

/-- The first token of a text begins behind its blanks. -/
theorem ofText_of_dropWhile {text rest : List Char} {c : Char}
    (h : text.dropWhile isGap = c :: rest) :
    ofText text = (Munch.front c rest).token :: ofText (Munch.front c rest).rest := by
  rw [ofText, Segmentation.tokens, Segmentation.lexemes_of_dropWhile h, List.map_cons]
  rfl

theorem ofText_nil : ofText [] = [] := ofText_of_blank rfl

/-- A blank in front of a text does not matter. -/
theorem ofText_gap {c : Char} (h : isGap c) (text : List Char) :
    ofText (c :: text) = ofText text := by
  have hgap : (c :: text).dropWhile isGap = text.dropWhile isGap := by simp [h]
  cases htext : text.dropWhile isGap with
  | nil => rw [ofText_of_blank htext, ofText_of_blank (hgap.trans htext)]
  | cons first rest => rw [ofText_of_dropWhile htext, ofText_of_dropWhile (hgap.trans htext)]

theorem ofText_space (text : List Char) : ofText (' ' :: text) = ofText text :=
  ofText_gap (by decide) text

theorem ofText_of_front {c : Char} {text taken rest : List Char} {token : Token}
    (hgap : isGap c = false) (h : Munch.front c text = ⟨token, taken, rest⟩) :
    ofText (c :: text) = token :: ofText rest := by
  rw [ofText_of_dropWhile (Text.dropWhile_of_stops (Text.stops_cons.mpr hgap)), h]

theorem ofText_leftParen (rest : List Char) : ofText ('(' :: rest) = .leftParen :: ofText rest :=
  ofText_of_front (by decide) (Munch.front_of_single rfl rfl)

theorem ofText_rightParen (rest : List Char) : ofText (')' :: rest) = .rightParen :: ofText rest :=
  ofText_of_front (by decide) (Munch.front_of_single rfl rfl)

theorem ofText_comma (rest : List Char) : ofText (',' :: rest) = .comma :: ofText rest :=
  ofText_of_front (by decide) (Munch.front_of_single rfl rfl)

theorem ofText_plus (rest : List Char) : ofText ('+' :: rest) = .operator .add :: ofText rest :=
  ofText_of_front (by decide) (Munch.front_of_single rfl rfl)

theorem ofText_minus (rest : List Char) :
    ofText ('-' :: rest) = .operator .subtract :: ofText rest :=
  ofText_of_front (by decide) (Munch.front_of_single rfl rfl)

/-- An operator in front of a blank. -/
theorem ofText_operator (op : Operator) (rest : List Char) :
    ofText (op.symbol.toList ++ ' ' :: rest) = .operator op :: ofText rest := by
  rw [← ofText_space rest]
  cases op <;> exact ofText_of_front (by decide) rfl

theorem ofText_string {content : String} (h : IsQuotable content) (rest : List Char) :
    ofText ('"' :: (content.toList ++ '"' :: rest)) = .text content :: ofText rest := by
  have hfront : Munch.front '"' (content.toList ++ '"' :: rest) =
      ⟨.text content, '"' :: content.toList ++ ['"'], rest⟩ := by
    have hstring := Munch.string_append_quote h rest
    rw [String.ofList_toList] at hstring
    exact hstring
  exact ofText_of_front (by decide) hfront

theorem ofText_decimal {digits : String} {whole fraction rest : List Char}
    (h : IsDecimal digits.toList whole fraction) (hrest : Breaks rest) :
    ofText (digits.toList ++ rest) = .number digits :: ofText rest := by
  obtain ⟨first, later, hwhole⟩ := List.exists_cons_of_ne_nil h.whole_ne_nil
  have hfirst : first.isDigit := h.whole_digits first (by simp [hwhole])
  obtain ⟨tail, htail⟩ : ∃ tail, digits.toList = first :: tail := by
    rw [h.text_eq, hwhole]
    exact ⟨_, List.cons_append⟩
  have hgap : isGap first = false :=
    isGap_of_isAlphanum (Text.isAlphanum_iff.mpr (.inr hfirst))
  have hnumber := Munch.number_run (h.isNumberBefore hrest)
  rw [htail, List.cons_append] at hnumber ⊢
  rw [← Munch.front_of_isDigit hfirst, ← htail, String.ofList_toList] at hnumber
  exact ofText_of_front hgap hnumber

theorem ofText_word {word : String} {rest : List Char} (h : IsWord word.toList)
    (hrest : Breaks rest) : ofText (word.toList ++ rest) = .ofWord word :: ofText rest := by
  have hword := Munch.word_run (h.isWordBefore hrest)
  rw [h.map_toUpper] at hword
  obtain ⟨first, stem, hfirst, -, htext⟩ := h
  obtain ⟨tail, htail⟩ : ∃ tail, word.toList = first :: tail := by
    rcases htext with htext | htext
    · exact ⟨stem, htext⟩
    · exact ⟨_, htext⟩
  have halpha : first.isAlpha := Text.isAlpha_iff.mpr (.inl (Text.isUpper_iff.mp hfirst))
  have hgap : isGap first = false := isGap_of_isAlphanum (Text.isAlphanum_iff.mpr (.inl halpha))
  rw [htail, List.cons_append] at hword ⊢
  rw [← Munch.front_of_isAlpha halpha, ← htail, String.ofList_toList] at hword
  exact ofText_of_front hgap hword

theorem ofWord_keyword (k : Keyword) : ofWord k.word = .keyword k := by cases k <;> decide

/-- A word that is not reserved is a name. -/
theorem ofWord_name {word : String} (h : ∀ k : Keyword, k.word ≠ word) :
    ofWord word = .name word := by
  have hnone : Keyword.all.find? (·.word = word) = none :=
    List.find?_eq_none.mpr fun k _ => by simpa using h k
  unfold ofWord
  rw [hnone]

theorem ofText_keyword (k : Keyword) {rest : List Char} (hrest : Breaks rest) :
    ofText (k.word.toList ++ rest) = .keyword k :: ofText rest := by
  rw [ofText_word k.isWord hrest, ofWord_keyword]

theorem ofText_name {name : String} {rest : List Char} (h : IsName name) (hrest : Breaks rest) :
    ofText (name.toList ++ rest) = .name name :: ofText rest := by
  rw [ofText_word h.word hrest, ofWord_name h.not_keyword]

end Token

end LineBasic
