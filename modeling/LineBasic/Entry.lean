import LineBasic.Error
import LineBasic.Program
import LineBasic.Statement.Reading
import LineBasic.Text.Blank

/-!
# Entries

A line that is typed at the prompt, or that stands in a program file, is one of four things: blank;
a line number alone, which erases the line; a line number and a statement, which stores it; or a
command. Which one it is depends on the line alone, and not on the session it is entered in.

White space around the line's text is not part of it: a stored text, and the text of a command,
neither begins nor ends with white space. Only the blanks in front of a line number are special,
they have to be spaces.
-/

namespace LineBasic

/-- What a line asks for. -/
inductive Entry where
  | blank
  | erase (number : LineNumber)
  | store (line : ProgramLine)
  | command (text : String)
  deriving DecidableEq

namespace Entry

/-- The entry of a line number and the trimmed text after it. -/
def ofBody (number : LineNumber) (body : List Char) : Except Error Entry :=
  if body = [] then .ok (.erase number)
  else
    match Statement.ofText body with
    | .ok statement => .ok (.store ⟨number, String.ofList body, statement⟩)
    | .error error => .error (.statement (some number) [error])

/-- The entry of a line. The only error is a numbered text that is no statement. -/
def ofText (text : List Char) : Except Error Entry :=
  let line := Text.dropLineEnd text
  if Text.trim line = [] then .ok .blank
  else
    match LineNumber.split? line with
    | some (number, rest) => ofBody number (Text.trim rest)
    | none => .ok (.command (String.ofList (Text.trim line)))

/-- What an entry does to the stored program; a command of itself does nothing to it. -/
def edit (p : Program) : Entry → Program
  | .erase number => p.erase number
  | .store line => p.insert line
  | .blank | .command _ => p

end Entry

end LineBasic
