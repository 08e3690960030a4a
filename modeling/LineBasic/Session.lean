import LineBasic.Listing
import LineBasic.Run

/-!
# Sessions

A session holds a stored program and the state that it runs in. Lines are entered one at a time:
numbered ones edit the program, and a line that is the keyword `RUN`, `LIST` or `NEW`, in either
case and with blanks around it, is a command.

Who changes what is narrow. Edits change the program alone. `RUN` starts with no variable set and
changes the state alone. `LIST` writes to the console and changes nothing else. `NEW` empties the
program and the store and leaves the console. An entry with an error that is not the program's own
changes nothing at all.

## Main definitions

* `Session.enter`: enters a line;
* `Session.load`: enters the lines of a file, up to the first error.
-/

namespace LineBasic

/-- A stored program, and what it runs in. -/
structure Session where
  program : Program
  state : State
  budget : Budget

namespace Session

/-- A session without a program. -/
def start (console : Console) (budget : Budget) : Session :=
  ⟨.empty, ⟨.empty, console⟩, budget⟩

/-- Runs the program, with no variable set. -/
def run (s : Session) : Except Error Unit × Session :=
  match s.program.run s.budget { s.state with store := .empty } with
  | (result, state) => (result, { s with state })

/-- Lists the program. -/
def list (s : Session) : Except Error Unit × Session :=
  match s.program.list s.state.console with
  | (.ok (), console) => (.ok (), { s with state.console := console })
  | (.error fault, console) => (.error (.channel fault), { s with state.console := console })

/-- Empties the program and the store. -/
def clear (s : Session) : Session :=
  { s with program := .empty, state.store := .empty }

/-- Carries out a command. -/
def command (s : Session) (text : String) : Except Error Unit × Session :=
  match Token.ofText text.toList with
  | [.keyword .RUN] => s.run
  | [.keyword .LIST] => s.list
  | [.keyword .NEW] => (.ok (), s.clear)
  | _ => (.error (.unknownCommand text), s)

/-- Carries out an entry. -/
def apply (s : Session) : Entry → Except Error Unit × Session
  | .command text => s.command text
  | entry => (.ok (), { s with program := entry.edit s.program })

/-- Enters a line. -/
def enter (s : Session) (line : String) : Except Error Unit × Session :=
  match Entry.ofText line.toList with
  | .ok entry => s.apply entry
  | .error error => (.error error, s)

/-- Enters the lines of a file until one of them has an error. -/
def loadLines (s : Session) : List (List Char) → Except Error Unit × Session
  | [] => (.ok (), s)
  | line :: later =>
    match s.program.editLine line with
    | .ok program => { s with program : Session }.loadLines later
    | .error error => (.error error, s)

/-- Loads a file into the session. The program already there is kept, and edited. -/
def load (s : Session) (source : String) : Except Error Unit × Session :=
  s.loadLines (Text.lines source.toList)

end Session

end LineBasic
