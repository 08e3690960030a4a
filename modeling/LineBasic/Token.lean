import LineBasic.Operator

/-!
# Tokens

A statement is read as a list of tokens. A word is stored in upper case, since letter case does not
matter outside string literals; digits stay text, since the same digits may be a value or a line
number. What cannot be part of any statement is a token too, so that every text has tokens: a stray
character, and a string literal whose closing quote is missing.

The end of the text is the end of the list and has no token.

## Main definitions

* `Token.ofWord`: a word is a keyword or a name;
* `Token.source`: a token as it is written.
-/

namespace LineBasic

/-- A reserved word, named as it is written. The last three are commands and belong to no
statement. -/
inductive Keyword where
  | REM | LET | PRINT | INPUT | IF | THEN | GOTO | END
  | RUN | LIST | NEW
  deriving DecidableEq, Repr

namespace Keyword

/-- The keyword as written, in upper case. -/
def word : Keyword → String
  | REM => "REM"
  | LET => "LET"
  | PRINT => "PRINT"
  | INPUT => "INPUT"
  | IF => "IF"
  | THEN => "THEN"
  | GOTO => "GOTO"
  | END => "END"
  | RUN => "RUN"
  | LIST => "LIST"
  | NEW => "NEW"

/-- Every keyword. -/
def all : List Keyword := [REM, LET, PRINT, INPUT, IF, THEN, GOTO, END, RUN, LIST, NEW]

theorem mem_all (k : Keyword) : k ∈ all := by cases k <;> decide

end Keyword

/-- A token of a line. -/
inductive Token where
  | leftParen
  | rightParen
  | comma
  | operator (op : Operator)
  | keyword (k : Keyword)
  /-- A variable's name, in upper case. -/
  | name (word : String)
  /-- A string literal, without its quotes. -/
  | text (content : String)
  /-- Digits with at most one point. -/
  | number (digits : String)
  /-- A character that belongs to no token. -/
  | stray (c : Char)
  /-- A string literal that its line ends before its closing quote. -/
  | unterminated
  deriving DecidableEq, Repr

namespace Token

/-- The token of a word in upper case: a keyword, or else a name. -/
def ofWord (word : String) : Token :=
  match Keyword.all.find? (·.word = word) with
  | some k => .keyword k
  | none => .name word

/-- The token as it is written. -/
def source : Token → String
  | .leftParen => "("
  | .rightParen => ")"
  | .comma => ","
  | .operator op => op.symbol
  | .keyword k => k.word
  | .name word => word
  | .text content => "\"" ++ content ++ "\""
  | .number digits => digits
  | .stray c => String.singleton c
  | .unterminated => "unterminated string"

/-- How strongly a token binds the expression before it; zero for what is no operator. -/
def precedence : Token → Nat
  | .operator op => op.precedence
  | _ => 0

end Token

end LineBasic
