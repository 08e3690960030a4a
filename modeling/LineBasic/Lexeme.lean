import LineBasic.Token

/-!
# Lexemes

A line is cut into *lexemes*: each is a gap of blanks, the text of one token, and the token. After
the last lexeme there may be a tail of blanks. Keeping the gaps and the texts means that nothing of
the line is lost: put back together in order they are the line. Byte positions, the colouring of a
line at the prompt and the tokens of a statement are all read off this one cut.

Every token is the longest that begins where it begins: digits with their first point, letters and
digits with one closing dollar sign, an operator of two characters before its first character
alone. Blanks between tokens are the space, the tab and the carriage return; a line feed is not
among them.

## Main definitions

* `Munch`: what the token at the front of a text takes and leaves;
* `Segmentation`: the lexemes of a line and its tail;
* `Segmentation.spans`: each token with its byte range.
-/

namespace LineBasic

/-- The characters that may stand between two tokens. -/
def isGap (c : Char) : Bool := c = ' ' || c = '\t' || c = '\r'

/-! ## One token -/

/-- A token cut off the front of a text. -/
structure Munch where
  token : Token
  /-- The characters of the token. -/
  taken : List Char
  /-- The characters after it. -/
  rest : List Char

namespace Munch

/-- A string literal, its opening quote already taken. It ends at the next quote, and may not
reach over a line feed. -/
def string (text : List Char) : Munch :=
  let inside (c : Char) : Bool := c ≠ '"' && c ≠ '\n'
  let content := text.takeWhile inside
  match text.dropWhile inside with
  | '"' :: rest => ⟨.text (String.ofList content), '"' :: content ++ ['"'], rest⟩
  | rest => ⟨.unterminated, '"' :: content, rest⟩

/-- Digits, and a point with the digits after it if there is a point. -/
def number (text : List Char) : Munch :=
  let whole := text.takeWhile Char.isDigit
  match text.dropWhile Char.isDigit with
  | '.' :: rest =>
    let taken := whole ++ '.' :: rest.takeWhile Char.isDigit
    ⟨.number (String.ofList taken), taken, rest.dropWhile Char.isDigit⟩
  | rest => ⟨.number (String.ofList whole), whole, rest⟩

/-- Letters and digits, and a dollar sign if one follows. -/
def word (text : List Char) : Munch :=
  let stem := text.takeWhile Char.isAlphanum
  match text.dropWhile Char.isAlphanum with
  | '$' :: rest =>
    let taken := stem ++ ['$']
    ⟨.ofWord (String.ofList (taken.map Char.toUpper)), taken, rest⟩
  | rest => ⟨.ofWord (String.ofList (stem.map Char.toUpper)), stem, rest⟩

/-- The operators of two characters. -/
def pair? : Char → Option Char → Option Token
  | '<', some '=' => some (.operator .lessEqual)
  | '<', some '>' => some (.operator .notEqual)
  | '>', some '=' => some (.operator .greaterEqual)
  | _, _ => none

/-- The operators and delimiters of one character. -/
def single? : Char → Option Token
  | '+' => some (.operator .add)
  | '-' => some (.operator .subtract)
  | '*' => some (.operator .multiply)
  | '/' => some (.operator .divide)
  | '=' => some (.operator .equal)
  | '<' => some (.operator .less)
  | '>' => some (.operator .greater)
  | '(' => some .leftParen
  | ')' => some .rightParen
  | ',' => some .comma
  | _ => none

/-- The token at the front of the text `c :: text`. -/
def front (c : Char) (text : List Char) : Munch :=
  match pair? c text.head? with
  | some token => ⟨token, c :: text.take 1, text.drop 1⟩
  | none =>
    match single? c with
    | some token => ⟨token, [c], text⟩
    | none =>
      if c = '"' then string text
      else if c.isDigit then number (c :: text)
      else if c.isAlpha then word (c :: text)
      else ⟨.stray c, [c], text⟩

/-! Taking a token loses nothing, and takes at least one character. -/

theorem string_append (text : List Char) :
    (string text).taken ++ (string text).rest = '"' :: text := by
  have hwhole := List.takeWhile_append_dropWhile (p := fun c => c ≠ '"' && c ≠ '\n') (l := text)
  unfold string
  dsimp only
  split
  · next rest h => rw [h] at hwhole; simpa using hwhole
  · simp only [List.cons_append, hwhole]

theorem number_append (text : List Char) :
    (number text).taken ++ (number text).rest = text := by
  have hwhole := List.takeWhile_append_dropWhile (p := Char.isDigit) (l := text)
  unfold number
  split
  · next rest h =>
    rw [h] at hwhole
    simpa [List.takeWhile_append_dropWhile] using hwhole
  · exact hwhole

theorem word_append (text : List Char) :
    (word text).taken ++ (word text).rest = text := by
  have hwhole := List.takeWhile_append_dropWhile (p := Char.isAlphanum) (l := text)
  unfold word
  split
  · next rest h => rw [h] at hwhole; simpa using hwhole
  · exact hwhole

theorem front_append (c : Char) (text : List Char) :
    (front c text).taken ++ (front c text).rest = c :: text := by
  unfold front
  split
  · exact congrArg (c :: ·) (List.take_append_drop 1 text)
  · split
    · rfl
    · split
      · next hquote => subst hquote; exact string_append text
      · split
        · exact number_append _
        · split
          · exact word_append _
          · rfl

theorem front_taken_ne_nil (c : Char) (text : List Char) : (front c text).taken ≠ [] := by
  unfold front
  split
  · simp
  · split
    · simp
    · split
      · unfold string; dsimp only; split <;> simp
      · split
        · next hdigit => unfold number; dsimp only; split <;> simp [hdigit]
        · split
          · next hletter => unfold word; dsimp only; split <;> simp [Char.isAlphanum, hletter]
          · simp

theorem front_rest_length_le (c : Char) (text : List Char) :
    (front c text).rest.length ≤ text.length := by
  have htotal := congrArg List.length (front_append c text)
  have hpositive := List.length_pos_iff.mpr (front_taken_ne_nil c text)
  simp only [List.length_append, List.length_cons] at htotal
  omega

end Munch

/-! ## A whole line -/

/-- A token with its text and the blanks before it. -/
structure Lexeme where
  gap : List Char
  text : List Char
  token : Token
  deriving DecidableEq, Repr

/-- A token with the range of bytes that its text occupies. -/
structure Span where
  start : Nat
  stop : Nat
  token : Token
  deriving DecidableEq, Repr

/-- The number of bytes of a text in UTF-8. -/
def byteSize : List Char → Nat
  | [] => 0
  | c :: text => c.utf8Size + byteSize text

/-- The lexemes of a line, and the blanks after the last of them. -/
structure Segmentation where
  lexemes : List Lexeme
  tail : List Char
  deriving DecidableEq, Repr

namespace Segmentation

/-- Cuts a line into its lexemes. -/
def ofText (text : List Char) : Segmentation :=
  match _h : text.dropWhile isGap with
  | [] => ⟨[], text⟩
  | c :: rest =>
    let munch := Munch.front c rest
    let later := ofText munch.rest
    ⟨⟨text.takeWhile isGap, munch.taken, munch.token⟩ :: later.lexemes, later.tail⟩
termination_by text.length
decreasing_by
  have hshorter := (List.dropWhile_sublist (l := text) isGap).length_le
  have htaken := Munch.front_rest_length_le c rest
  rw [_h, List.length_cons] at hshorter
  omega

/-- The tokens of a line, in order. -/
def tokens (s : Segmentation) : List Token := s.lexemes.map Lexeme.token

/-- The spans of lexemes that begin at a byte position. -/
def spansFrom (start : Nat) : List Lexeme → List Span
  | [] => []
  | lexeme :: later =>
    let first := start + byteSize lexeme.gap
    let stop := first + byteSize lexeme.text
    ⟨first, stop, lexeme.token⟩ :: spansFrom stop later

/-- Each token with its byte range in the line. -/
def spans (s : Segmentation) : List Span := spansFrom 0 s.lexemes

end Segmentation

/-- The tokens of a text. -/
def Token.ofText (text : List Char) : List Token := (Segmentation.ofText text).tokens

end LineBasic
