import LineBasic.Console
import LineBasic.Entry
import LineBasic.Text.Lines

/-!
# Program files and listings

A program file is a sequence of entries, and none of them may be a command. Checking a file goes
through all of it and reports an error for every line that has one; a file without errors yields
its program.

A listing is the other direction: each line of a program with its number. `LIST` writes the texts
as they were entered, and checking a file prints its statements in their even form.

## Main definitions

* `Program.check`: the program of a file, or the errors of all its lines;
* `Program.list`: writes a program's lines to a console;
* `Program.normalForm`: the lines of a program with even spacing.
-/

namespace LineBasic

namespace Program

/-- The error of a line in a file, or what it does to the program of the lines before it. -/
def editLine (p : Program) (line : List Char) : Except Error Program :=
  match Entry.ofText line with
  | .ok (.command text) => .error (.missingLineNumber text)
  | .ok entry => .ok (entry.edit p)
  | .error error => .error error

/-- The program of some lines, and the errors of those that have one. -/
def checkLines (p : Program) : List (List Char) → Program × List Error
  | [] => (p, [])
  | line :: later =>
    match p.editLine line with
    | .ok p => checkLines p later
    | .error error =>
      let (p, errors) := checkLines p later
      (p, error :: errors)

/-- The program of a file, or all of its errors in the order of its lines. -/
def check (source : String) : Except (List Error) Program :=
  match checkLines empty (Text.lines source.toList) with
  | (p, []) => .ok p
  | (_, errors) => .error errors

/-! ## Listings -/

/-- A numbered text, as one line. -/
def listed (number : LineNumber) (text : String) : String := toString number ++ " " ++ text ++ "\n"

/-- The program's statements in their even form, one line each. -/
def normalForm (p : Program) : String :=
  String.join (p.lines.map fun line => listed line.number line.statement.source)

/-- Writes some lines as they were entered. -/
def listLines (lines : List ProgramLine) (c : Console) : Except ChannelFault Unit × Console :=
  match lines with
  | [] => (.ok (), c)
  | line :: later =>
    match c.write (listed line.number line.source) with
    | (.ok (), c) => listLines later c
    | (.error fault, c) => (.error fault, c)

/-- Writes a program's lines as they were entered, and flushes. -/
def list (p : Program) (c : Console) : Except ChannelFault Unit × Console :=
  match listLines p.lines c with
  | (.ok (), c) => (c.flush, c)
  | (.error fault, c) => (.error fault, c)

end Program

end LineBasic
