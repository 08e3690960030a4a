import LineBasic.Session

/-!
# The log

What a session does can be followed in a log of notes at three levels. No part of the library
writes a log: what it would say about an action is a function of the state before it, and these
functions are here, beside the actions they describe. So the log costs nothing unless it is asked
for, and no statement about sessions and runs has to speak of it.

A reader of statements is always two tokens ahead of the one it decides on. Characters that belong
to no token are noted when they come into its view, which is why a statement that ends in a comment
notes only those among the next two tokens.

## Main definitions

* `Log.statement`: the notes of reading a statement;
* `Log.run`: the notes of a run;
* `Log.enter`, `Log.load`, `Log.check`: those of a line, a loaded file and a checked file.
-/

namespace LineBasic.Log

/-- How important a note is. -/
inductive Level where
  | info | debug | trace
  deriving DecidableEq, Repr

/-- A note of the log. -/
structure Note where
  level : Level
  message : String
  deriving DecidableEq, Repr

/-! ## Reading -/

/-- A note for every stray character among the tokens. -/
def strays (spans : List Span) : List Note :=
  spans.filterMap fun span =>
    match span.token with
    | .stray _ => some ⟨.trace, "illegal byte at offset " ++ toString span.start⟩
    | _ => none

/-- How many tokens beyond those it took a reader has seen. -/
def lookahead : Nat := 2

/-- The notes of reading a statement. -/
def statement (text : List Char) : List Note :=
  let tokens := Token.ofText text
  let reply := Statement.readWhole tokens
  let seen := tokens.length - reply.rest.length + lookahead
  strays ((Segmentation.ofText text).spans.take seen) ++
    match reply.result with
    | .ok _ => []
    | .error error => [⟨.debug, "syntax error: " ++ error.message⟩]

/-- The notes of finding out what a line asks for: those of its statement, if it has one. -/
def entry (text : List Char) : List Note :=
  match LineNumber.split? (Text.dropLineEnd text) with
  | some (_, rest) => if Text.trim rest = [] then [] else statement (Text.trim rest)
  | none => []

/-- The note of an edit. -/
def edit : Entry → List Note
  | .erase number => [⟨.debug, "delete line " ++ toString number⟩]
  | .store line =>
    [⟨.debug, "set line " ++ toString line.number ++ ": " ++ line.statement.source⟩]
  | .blank | .command _ => []

/-! ## Running -/

/-- The notes of executing a line as the given step of a run. -/
def step (p : Program) (count : Nat) : Run → List Note
  | .active line later state =>
    let executed := toString line.number ++ " " ++ line.statement.source
    let jumped := match line.statement.select state.store with
      | .ok (.jump target) => [⟨.debug, "jump to line " ++ toString target⟩]
      | .ok .stop =>
        [⟨.debug,
          "END at line " ++ toString line.number ++ " after " ++ toString count ++ " steps"⟩]
      | _ => []
    let aborted := match Run.step p (.active line later state) with
      | .failed number error _ =>
        [⟨.debug, "run aborted at line " ++ toString number ++ ": " ++ error.message⟩]
      | _ => []
    ⟨.trace, executed⟩ :: jumped ++ aborted
  | _ => []

/-- The notes of up to `n` steps of a run, after those already collected. -/
def steps (p : Program) (n count : Nat) (run : Run) (notes : Array Note) : Array Note :=
  match n, run with
  | n + 1, .active line later state =>
    let run := Run.active line later state
    steps p n (count + 1) (run.step p) (notes ++ step p (count + 1) run)
  | _, _ => notes

/-- The notes of running a session's program. -/
def run (s : Session) : List Note :=
  let start := Run.ofLines s.program.lines { s.state with store := .empty }
  ⟨.info, "RUN"⟩ ::
    ⟨.debug, "running " ++ toString s.program.lines.length ++ " lines"⟩ ::
      (steps s.program s.budget.steps 0 start #[]).toList

/-! ## Entering -/

/-- The notes of a command. -/
def command (s : Session) (text : String) : List Note :=
  strays (Segmentation.ofText text.toList).spans ++
    match Token.ofText text.toList with
    | [.keyword .RUN] => run s
    | [.keyword .LIST] => [⟨.info, "LIST"⟩]
    | [.keyword .NEW] => [⟨.info, "NEW"⟩]
    | _ => []

/-- The notes of entering a line. -/
def enter (s : Session) (line : String) : List Note :=
  entry line.toList ++
    match Entry.ofText line.toList with
    | .ok (.command text) => command s text
    | .ok other => edit other
    | .error _ => []

/-- The notes of loading some lines, up to the first error. -/
def loadLines : List (List Char) → List Note
  | [] => []
  | line :: later =>
    entry line ++
      match Entry.ofText line with
      | .ok (.command _) | .error _ => []
      | .ok other => edit other ++ loadLines later

/-- The notes of loading a file. -/
def load (source : String) : List Note := loadLines (Text.lines source.toList)

/-- The notes of checking a file. -/
def check (source : String) : List Note := (Text.lines source.toList).flatMap entry

end LineBasic.Log
