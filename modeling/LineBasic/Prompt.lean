/-!
# The texts of the prompt

What an interactive session shows around the lines that are typed.
-/

namespace LineBasic.Prompt

/-- The greeting at the start. -/
def banner : String :=
  "MINI BASIC v0.1\nCommands: RUN, LIST, NEW\nEnter line-numbered statements, e.g. " ++
    "`10 PRINT \"HELLO\"`"

/-- What stands left of the indicator. -/
def left : String := ""

/-- What stands at the right margin. -/
def right : String := ""

/-- What stands directly before the line. -/
def indicator : String := "] "

/-- What stands before each further row of a line. -/
def continuation : String := "  ... "

/-- What stands before the line while the history is searched for a term. -/
def search (term : String) (failing : Bool) : String :=
  "(" ++ (if failing then "failing " else "") ++ "reverse-search: " ++ term ++ ") "

end LineBasic.Prompt
