import LineBasic.Arguments
import LineBasic.Batch
import LineBasic.Prompt

/-!
# The command line

The outer layer: it reads files and standard input, writes what the library decides, and decides
nothing itself. A program that asks for input is given one line at a time, as it asks, so that its
prompt is seen before the line is typed.
-/

namespace LineBasic.CommandLine

/-- The fault that an error of the operating system is. -/
def fault : IO.Error → ChannelFault
  | .noFileOrDirectory _ code details | .permissionDenied _ code details
  | .inappropriateType _ code details => .system details code.toNat
  | error => .system (toString error) 0

/-- The bytes of a file. -/
def readFile (path : String) : IO (Except ChannelFault (List UInt8)) := do
  try
    return .ok (← IO.FS.readBinFile path).data.toList
  catch error => return .error (fault error)

/-- Writes what a console holds, and empties it. -/
def emit (state : State) : IO State := do
  let stdout ← IO.getStdout
  stdout.write ⟨state.console.output⟩
  stdout.flush
  return { state with console.output := #[] }

/-- A line of standard input, as bytes. -/
def readLine : IO (List UInt8) := do
  return Console.encode (← (← IO.getStdin).getLine)

/-- Follows a run for a number of steps, showing what it writes and reading what it asks for. -/
partial def follow (p : Program) (steps : Nat) (run : Run) : IO Run := do
  match steps, run with
  | steps + 1, .active line later state =>
    match line.statement.select state.store with
    | .ok (.input _) =>
      let state ← emit state
      IO.print "? "
      (← IO.getStdout).flush
      let input ← readLine
      let next := Run.step p (.active line later { state with console.input := input })
      match next with
      | .active line later state =>
        follow p steps (.active line later { state with console.output := #[] })
      | .ended state => return .ended { state with console.output := #[] }
      | .failed number error state =>
        return .failed number error { state with console.output := #[] }
    | _ => follow p steps (Run.step p run)
  | _, run => return run

/-- Runs a session's program at the terminal. -/
def run (s : Session) : IO Session := do
  let start := Run.ofLines s.program.lines { s.state with store := .empty }
  let finished ← follow s.program s.budget.steps start
  let (result, state) := finished.conclude s.budget.limit
  let state ← emit state
  if let .error error := result then
    IO.eprintln error.message
  return { s with state }

/-- Enters lines until the input ends. -/
partial def converse (s : Session) : IO Unit := do
  IO.print (Prompt.left ++ Prompt.indicator)
  (← IO.getStdout).flush
  let line ← (← IO.getStdin).getLine
  if line = "" then return
  match Entry.ofText line.toList with
  | .ok (.command text) =>
    if Token.ofText text.toList = [.keyword .RUN] then
      converse (← run s)
    else
      reply (s.command text)
  | _ => reply (s.enter line)
where
  /-- Shows what an entry has written and its error, and goes on. -/
  reply (answer : Except Error Unit × Session) : IO Unit := do
    let state ← emit answer.2.state
    if let .error error := answer.1 then
      IO.eprintln error.message
    converse { answer.2 with state }

/-- What is said of a command line that asks for nothing that can be done. -/
def usage : String :=
  "Usage: line-basic [--max-steps <N>] <run <FILE> | check <FILE> | repl | help>"

/-- Writes a report. -/
def report (r : Batch.Report) : IO Unit := do
  (← IO.getStdout).write ⟨r.output.toArray⟩
  IO.eprint r.messages

/-- Carries out a command. -/
def perform (arguments : Arguments) : IO Unit := do
  let budget := Budget.ofLimit arguments.limit
  match arguments.command with
  | .check file => report (Batch.check (← readFile file))
  | .run file =>
    match Batch.source (← readFile file) with
    | .error fault => IO.eprintln (Error.channel fault).message
    | .ok text =>
      match Batch.load text (.ofInput []) budget with
      | .error error => IO.eprintln error.message
      | .ok session => discard (run session)
  | .repl =>
    IO.println Prompt.banner
    converse (Session.start (.ofInput []) budget)

end LineBasic.CommandLine

open LineBasic in
/-- The program. -/
def main (arguments : List String) : IO UInt32 := do
  match Arguments.parse arguments with
  | .ok arguments => CommandLine.perform arguments; return 0
  | .error .helpRequested => IO.println CommandLine.usage; return 0
  | .error .versionRequested => IO.println "line-basic 0.1"; return 0
  | .error _ => IO.eprintln CommandLine.usage; return 2
