import LineBasic.RuntimeError
import LineBasic.SyntaxError

/-!
# Errors of a session

What may come of entering a line, loading a file or running a program, in place of success.
-/

namespace LineBasic

/-- Why an entry had no success. -/
inductive Error where
  | channel (fault : ChannelFault)
  /-- A text that is no statement, with the number of its line if it has one. -/
  | statement (line : Option LineNumber) (errors : List SyntaxError)
  | runtime (line : LineNumber) (error : RuntimeError)
  | unknownCommand (text : String)
  | missingLineNumber (text : String)
  /-- A run without a limit that was given up, about to execute a line. -/
  | unfinished (line : LineNumber)
  deriving DecidableEq, Repr

namespace Error

/-- The line that a message speaks of, if any. -/
def atLine : Option LineNumber → String
  | none => ""
  | some number => " at line " ++ toString number

/-- The wording of an error. -/
def message : Error → String
  | .channel fault => "io error: " ++ fault.message
  | .statement line errors =>
    "syntax error" ++ atLine line ++ ": " ++ "; ".intercalate (errors.map SyntaxError.message)
  | .runtime line error => "runtime error" ++ atLine (some line) ++ ": " ++ error.message
  | .unknownCommand text =>
    "unknown command '" ++ text ++ "' (use RUN, LIST, NEW or a line-numbered statement)"
  | .missingLineNumber text => "missing line number: '" ++ text ++ "'"
  | .unfinished line => "run given up" ++ atLine (some line)

end Error

end LineBasic
