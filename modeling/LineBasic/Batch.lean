import LineBasic.Session

/-!
# Running and checking a file

The two commands that take a file, as functions of its bytes. A file that cannot be read, or is not
UTF-8, is an error before any of it is looked at. Running a file stops at the first line with an
error, and then nothing is run; checking a file reports all of them, or else prints the program in
its even form.

## Main definitions

* `Batch.run`, `Batch.check`: what the commands write, and which errors they report.
-/

namespace LineBasic.Batch

/-- What a command has written, and the errors it reports. -/
structure Report where
  output : List UInt8
  errors : List Error

/-- The errors as they are reported, one line each. -/
def Report.messages (r : Report) : String :=
  String.join (r.errors.map fun error => error.message ++ "\n")

/-- The text of a file. -/
def source (file : Except ChannelFault (List UInt8)) : Except ChannelFault String := do
  match Console.decode? (← file) with
  | some text => return text
  | none => throw .encoding

/-- The session of a file, if every line of it can be entered. -/
def load (source : String) (console : Console) (budget : Budget) : Except Error Session :=
  match (Session.start console budget).load source with
  | (.ok (), session) => .ok session
  | (.error error, _) => .error error

/-- Runs a file on some input. -/
def run (file : Except ChannelFault (List UInt8)) (input : List UInt8) (budget : Budget) :
    Report :=
  match source file with
  | .error fault => ⟨[], [.channel fault]⟩
  | .ok text =>
    match load text (.ofInput input) budget with
    | .error error => ⟨[], [error]⟩
    | .ok session =>
      match session.run with
      | (.ok (), session) => ⟨session.state.console.output.toList, []⟩
      | (.error error, session) => ⟨session.state.console.output.toList, [error]⟩

/-- Checks a file. -/
def check (file : Except ChannelFault (List UInt8)) : Report :=
  match source file with
  | .error fault => ⟨[], [.channel fault]⟩
  | .ok text =>
    match Program.check text with
    | .ok program => ⟨Console.encode program.normalForm, []⟩
    | .error errors => ⟨[], errors⟩

end LineBasic.Batch
