import LineBasic.Lexeme

/-!
# Colouring a line

While a line is typed its tokens are coloured. The parts of a coloured line are cut exactly where
its lexemes are, so that their texts, put together, are the line; a part is never empty. What
follows the first `REM` is a comment, and is one part whatever it contains.
-/

namespace LineBasic

/-- The colours of a line. -/
inductive Color where
  | lightBlue | yellow | white | darkGray | red
  deriving DecidableEq, Repr

/-- The colour of what is not set off. -/
def Color.plain : Color := .white

/-- The colour of a token. -/
def Token.color : Token → Color
  | .keyword _ => .lightBlue
  | .operator _ | .leftParen | .rightParen | .comma => .darkGray
  | .number _ | .text _ => .yellow
  | .stray _ | .unterminated => .red
  | .name _ => .plain

/-- A piece of a line in one colour. -/
structure ColoredText where
  color : Color
  text : List Char
  deriving DecidableEq, Repr

namespace ColoredText

/-- A text that is not set off, which is no part at all if it is empty. -/
def plain (text : List Char) : List ColoredText :=
  if text = [] then [] else [⟨.plain, text⟩]

/-- The text of some lexemes and of the tail after them. -/
def join (lexemes : List Lexeme) (tail : List Char) : List Char :=
  lexemes.flatMap (fun lexeme => lexeme.gap ++ lexeme.text) ++ tail

/-- The parts of some lexemes and of the tail after them. -/
def ofLexemes (tail : List Char) : List Lexeme → List ColoredText
  | [] => plain tail
  | lexeme :: later =>
    plain lexeme.gap ++ ⟨lexeme.token.color, lexeme.text⟩ ::
      (if lexeme.token = .keyword .REM then plain (join later tail) else ofLexemes tail later)

/-- The parts of a line. -/
def ofLine (line : List Char) : List ColoredText :=
  let segments := Segmentation.ofText line
  ofLexemes segments.tail segments.lexemes

end ColoredText

end LineBasic
