import LineBasic.Proofs.Munching

/-!
# Tokens written out

Tokens can be written out again, one behind the other with a blank between any two, and what is
written has the same tokens. It is not the text that they came from: a word comes out in upper case,
and the blanks are others. But each token is as long as it can be in front of a blank, since none
goes on through one, and so no two run together and none falls apart.

The literal that is never closed is the exception. What is written for it is a description and no
literal, and nothing that could be written in front of another token would be one.

## Main results

* `Token.Munched.source`: a token's own text is as long as it can be in front of a blank;
* `Token.ofText_written`: the tokens of what is written.
-/

namespace LineBasic

/-- No operator goes on through a text that breaks. -/
theorem Operator.closed_of_breaks (op : Operator) {rest : List Char} (h : Breaks rest) :
    op.Closed rest := by
  cases op with
  | less => exact ⟨h.head?_ne (by decide), h.head?_ne (by decide)⟩
  | greater => exact h.head?_ne (by decide)
  | _ => trivial

namespace Token

/-- **A token's own text is as long as it can be** in front of a text that breaks, wherever the token
was cut off and whatever its text was there. -/
theorem Munched.source {rest text : List Char} {token : Token} (h : token.Munched rest text)
    (hclosed : token ≠ .unterminated) {after : List Char} (hafter : Breaks after) :
    token.Munched after token.source.toList := by
  cases token with
  | keyword k => exact ⟨k.isWord.isWordBefore hafter, k.isWord.map_toUpper⟩
  | name word =>
      obtain ⟨hbefore, hupper, hname⟩ := h
      have hword : IsWord word.toList := hupper ▸ hbefore.isWord
      exact ⟨hword.isWordBefore hafter, hword.map_toUpper, hname⟩
  | number digits =>
      obtain ⟨⟨hspelled, hpoint, -⟩, rfl⟩ := h
      exact ⟨⟨hspelled, hpoint, hafter.stops_isDigit, fun _ => hafter.head?_ne (by decide)⟩, rfl⟩
  | text content => exact ⟨h.1, by simp [Token.source]⟩
  | operator op => exact ⟨rfl, op.closed_of_breaks hafter⟩
  | stray c =>
      obtain ⟨-, hgap, hbegins⟩ := h
      exact ⟨String.toList_singleton c, hgap, hbegins⟩
  | leftParen => rfl
  | rightParen => rfl
  | comma => rfl
  | unterminated => exact absurd rfl hclosed

/-- The tokens of a token's own text in front of a text that breaks. -/
theorem Munched.ofText_source {rest text : List Char} {token : Token} (h : token.Munched rest text)
    (hclosed : token ≠ .unterminated) {after : List Char} (hafter : Breaks after) :
    ofText (token.source.toList ++ after) = token :: ofText after := by
  obtain ⟨c, later, hsource, hgap, hfront⟩ := (h.source hclosed hafter).front_eq
  rw [hsource, List.cons_append]
  exact ofText_of_front hgap hfront

/-- Tokens that are written in front of nothing visible are the tokens of what is written. -/
theorem ofText_intercalate {tokens : List Token} {ends : List String}
    (h : ∀ token ∈ tokens, token ≠ .unterminated ∧ ∃ rest text, token.Munched rest text)
    (hends : ofText (" ".intercalate ends).toList = []) :
    ofText (" ".intercalate (tokens.map source ++ ends)).toList = tokens := by
  induction tokens with
  | nil => exact hends
  | cons token later ih =>
      obtain ⟨⟨hclosed, rest, text, hmunched⟩, hlater⟩ := List.forall_mem_cons.mp h
      have hwritten := ih hlater
      rw [List.map_cons, List.cons_append]
      cases htexts : later.map source ++ ends with
      | nil =>
          have htoken := hmunched.ofText_source hclosed .nil
          have hnone : later = [] := List.map_eq_nil_iff.mp (List.append_eq_nil_iff.mp htexts).1
          rw [ofText_nil, List.append_nil] at htoken
          rw [String.intercalate_singleton, htoken, hnone]
      | cons next texts =>
          have htext : (" ".intercalate (token.source :: next :: texts)).toList =
              token.source.toList ++ ' ' :: (" ".intercalate (next :: texts)).toList := by
            simp [String.intercalate_cons_cons]
          have hblank : Breaks (' ' :: (" ".intercalate (next :: texts)).toList) :=
            .cons (by decide) _
          rw [htext, hmunched.ofText_source hclosed hblank, ofText_space, ← htexts, hwritten]

/-- **Tokens are read back from what is written for them.** Let no literal in a source lack its
closing quote. The texts of its tokens with one blank between any two have the same tokens, and so
they have if the end of the source is written behind them as a last, empty text. -/
theorem ofText_written (source : String) (h : .unterminated ∉ ofText source.toList) :
    ofText (" ".intercalate ((ofText source.toList).map Token.source)).toList =
        ofText source.toList ∧
      ofText (" ".intercalate ((ofText source.toList).map Token.source ++ [""])).toList =
        ofText source.toList := by
  have htokens : ∀ token ∈ ofText source.toList,
      token ≠ .unterminated ∧ ∃ rest text, token.Munched rest text := fun token hmem =>
    ⟨fun heq => h (heq ▸ hmem), munched_of_mem_ofText hmem⟩
  have hnothing := @ofText_intercalate (ofText source.toList) [] htokens ofText_nil
  rw [List.append_nil] at hnothing
  exact ⟨hnothing, ofText_intercalate htokens ofText_nil⟩

/-- A keyword that a dollar sign makes a name of, a number and a name next to each other, a number
with a second point, a character of two bytes, a line feed, a literal with blanks in it, and a `<`
that a blank keeps from being part of a longer operator. -/
def crowded : String := "print$ 1a$b<=1.2.3é\n\"a \tb\"< ="

/-- The tokens of the crowded source, and the same tokens of what is written for them. -/
theorem ofText_written_crowded :
    let tokens : List Token :=
      [.name "PRINT$", .number "1", .name "A$", .name "B", .operator .lessEqual, .number "1.2",
        .stray '.', .number "3", .stray 'é', .stray '\n', .text "a \tb", .operator .less,
        .operator .equal]
    ofText crowded.toList = tokens ∧ .unterminated ∉ ofText crowded.toList ∧
      ofText "PRINT$ 1 A$ B <= 1.2 . 3 é \n \"a \tb\" < =".toList = tokens ∧
      ofText "PRINT$ 1 A$ B <= 1.2 . 3 é \n \"a \tb\" < = ".toList = tokens := by
  intro tokens
  have htokens : ofText crowded.toList = tokens := by decide +kernel
  have hclosed : .unterminated ∉ ofText crowded.toList := by
    rw [htokens]
    decide
  obtain ⟨hwritten, hended⟩ := ofText_written crowded hclosed
  rw [htokens] at hwritten hended
  exact ⟨htokens, hclosed, hwritten, hended⟩

end Token

end LineBasic
