import LineBasic.Error
import LineBasic.Statement.Reading

/-!
# Parsing a text

A parser holds the tokens that it has not consumed, and the errors of the attempts that failed. An
attempt reads one statement; when it fails it adds one error, and the next attempt goes on from the
token where the fault was found.

Whoever parses a text on its own makes one attempt and wants the session's error, which carries no
line number here, since the text was not entered under one.

## Main definitions

* `Parser.parseStatement`: one attempt;
* `Parser.parse`: the statement of a source text.
-/

namespace LineBasic

/-- A text that is being parsed. -/
structure Parser where
  /-- The tokens not yet consumed. -/
  tokens : List Token
  /-- The errors of the failed attempts, oldest first. -/
  errors : List SyntaxError
  deriving DecidableEq, Repr

namespace Parser

/-- A parser about to read a text. -/
def ofText (text : List Char) : Parser := ⟨Token.ofText text, []⟩

/-- Reads one statement, if there is one. -/
def parseStatement (p : Parser) : Option Statement × Parser :=
  match Statement.readWhole p.tokens with
  | .done statement rest _ => (some statement, { p with tokens := rest })
  | .fault error rest _ => (none, ⟨rest, p.errors ++ [error]⟩)

/-- The statement of a source text, or what is wrong with the text. -/
def parse (source : String) : Except Error Statement :=
  match (ofText source.toList).parseStatement with
  | (some statement, _) => .ok statement
  | (none, p) => .error (.statement none p.errors)

end Parser

end LineBasic
