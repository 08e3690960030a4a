import LineBasic.Run

/-!
# Command-line arguments

A command line is an optional limit on steps and one command: `run` or `check` with a file, `repl`,
or `help`. The limit, `--max-steps`, may stand before the command or after it, and the one after it
counts. Help may be asked for at either place, the version only before the command.

Arguments are read from left to right, first those before the command, then the command's own. An
option's value may be attached with an equals sign or follow as the next argument. A value that
follows is kept aside, and is only looked at when the next option or file begins, or when the
arguments of its level end; this decides which of two faults is reported. An argument that belongs
nowhere is reported without looking at a value kept aside. After `--` every argument is taken for a
file, whatever it looks like.

## Main definitions

* `Arguments.parse`: the meaning of a command line, or what is wrong with it.
-/

namespace LineBasic

/-- What the program is asked to do. -/
inductive Command where
  | run (file : String)
  | check (file : String)
  | repl
  deriving DecidableEq, Repr

/-- A command with its limit on steps. -/
structure Arguments where
  command : Command
  limit : Nat
  deriving DecidableEq, Repr

/-- Why a command line asks for nothing that can be done. The first two are no mistakes. -/
inductive UsageError where
  | helpRequested
  | versionRequested
  /-- There are no arguments at all. -/
  | nothingRequested
  | commandMissing
  | fileMissing
  | unknownCommand
  | unknownArgument
  /-- An option without the value that it needs, or an empty file name. -/
  | valueMissing
  /-- A limit that is no number. -/
  | valueInvalid
  /-- An attached value to an option that takes none. -/
  | valueUnwanted
  | repeatedOption
  deriving DecidableEq, Repr

namespace Arguments

/-! ## Values -/

/-- The greatest limit: it fits in 64 bits. -/
def greatestLimit : Nat := UInt64.size - 1

/-- Reads a limit: decimal digits, with an optional plus sign in front. -/
def readLimit? (text : String) : Option Nat :=
  let digits := match text.toList with
    | '+' :: digits => digits
    | digits => digits
  let limit := Nat.ofDigitChars 10 digits 0
  if digits ≠ [] ∧ digits.all Char.isDigit ∧ limit ≤ greatestLimit then some limit else none

/-- The form of an argument. A dash alone is an ordinary word. -/
inductive Form where
  | escape
  | long (name : String) (value : Option String)
  /-- A dash and letters, of which the first decides. -/
  | short (letter : Char)
  | word

/-- The form of an argument. -/
def Form.ofArgument (argument : String) : Form :=
  match argument.toList with
  | ['-', '-'] => .escape
  | '-' :: '-' :: text =>
    match text.dropWhile (· ≠ '=') with
    | [] => .long (String.ofList text) none
    | _ :: value => .long (String.ofList (text.takeWhile (· ≠ '='))) (some (String.ofList value))
  | '-' :: letter :: _ => .short letter
  | _ => .word

/-! ## One level of arguments -/

/-- A value kept aside. -/
inductive Pending where
  | nothing
  /-- The option's name has been read, and not its value. -/
  | awaitingLimit
  | limit (text : String)
  | file (path : String)
  deriving DecidableEq

/-- What has been read of the arguments before the command, or of those after it. -/
structure Level where
  limit : Option Nat
  file : Option String
  pending : Pending
  /-- Whether `--` has been read. -/
  escaped : Bool

namespace Level

/-- Nothing has been read. -/
def start : Level := ⟨none, none, .nothing, false⟩

/-- Sets the limit, once. -/
def giveLimit (level : Level) (text : String) : Except UsageError Level :=
  if level.limit.isSome then .error .repeatedOption
  else
    match readLimit? text with
    | some limit => .ok { level with limit := some limit }
    | none => .error .valueInvalid

/-- Looks at the value kept aside. -/
def settle (level : Level) : Except UsageError Level :=
  let settled := { level with pending := .nothing }
  match level.pending with
  | .nothing => .ok level
  | .awaitingLimit => .error .valueMissing
  | .limit text => settled.giveLimit text
  | .file path => if path = "" then .error .valueMissing else .ok { settled with file := some path }

/-- Whether a file has been given. -/
def hasFile (level : Level) : Bool :=
  level.file.isSome || match level.pending with
    | .file _ => true
    | _ => false

/-- Reads an argument that begins with a dash; only before the command is there a version. -/
def readOption (level : Level) (versioned : Bool) : Form → Except UsageError Level
  | .long "max-steps" (some value) => do (← level.settle).giveLimit value
  | .long "max-steps" none => do return { ← level.settle with pending := .awaitingLimit }
  | .long "help" none | .short 'h' => do
    let _ ← level.settle
    throw .helpRequested
  | .long "help" (some _) => .error .valueUnwanted
  | .long "version" none | .short 'V' => do
    if versioned then
      let _ ← level.settle
      throw .versionRequested
    else throw .unknownArgument
  | .long "version" (some _) => .error (if versioned then .valueUnwanted else .unknownArgument)
  | _ => .error .unknownArgument

end Level

/-! ## After the command -/

/-- Reads a word after the command: a value, or the command's file if it takes one. -/
def readWord (takesFile : Bool) (level : Level) (word : String) : Except UsageError Level :=
  if level.pending = .awaitingLimit ∧ ¬ level.escaped then
    .ok { level with pending := .limit word }
  else if takesFile ∧ ¬ level.hasFile then do
    return { ← level.settle with pending := .file word }
  else .error .unknownArgument

/-- Reads the arguments after the command. -/
def readCommand (takesFile : Bool) (level : Level) : List String → Except UsageError Level
  | [] => do
    let level ← level.settle
    if takesFile ∧ level.file = none then throw .fileMissing
    return level
  | argument :: later =>
    if level.escaped then do
      readCommand takesFile (← readWord takesFile level argument) later
    else
      match Form.ofArgument argument with
      | .escape => readCommand takesFile { level with escaped := true } later
      | .word => do readCommand takesFile (← readWord takesFile level argument) later
      | form => do readCommand takesFile (← level.readOption false form) later

/-! ## Before the command -/

/-- Reads what follows `help`: nothing, or the name of a command. -/
def readHelp : List String → UsageError
  | [] => .helpRequested
  | [name] => if name ∈ ["run", "check", "repl", "help"] then .helpRequested else .unknownCommand
  | _ => .unknownCommand

/-- The command with a name, once its file is known, and whether it takes one. -/
def command? : String → Option (Bool × (String → Command))
  | "run" => some (true, .run)
  | "check" => some (true, .check)
  | "repl" => some (false, fun _ => .repl)
  | _ => none

/-- Reads the arguments after a command, and then looks at the value kept aside before it. -/
def finish (level : Level) (takesFile : Bool) (command : String → Command)
    (later : List String) : Except UsageError Arguments := do
  let inner ← readCommand takesFile .start later
  let outer ← level.settle
  let limit := (inner.limit <|> outer.limit).getD Budget.defaultLimit
  return ⟨command (inner.file.getD ""), limit⟩

/-- Reads the arguments from the first. -/
def read (level : Level) : List String → Except UsageError Arguments
  | [] => do
    let level ← level.settle
    throw (if level.limit.isSome then .commandMissing else .nothingRequested)
  | argument :: later =>
    if level.escaped then
      .error (if argument = "help" ∨ (command? argument).isSome then .unknownArgument
        else .unknownCommand)
    else
      match Form.ofArgument argument with
      | .escape => read { level with escaped := true } later
      | .word =>
        if level.pending = .awaitingLimit then
          read { level with pending := .limit argument } later
        else if argument = "help" then .error (readHelp later)
        else
          match command? argument with
          | some (takesFile, command) => finish level takesFile command later
          | none => .error .unknownCommand
      | form => do read (← level.readOption true form) later

/-- The meaning of a command line, the program's name not included. -/
def parse (arguments : List String) : Except UsageError Arguments := read .start arguments

end Arguments

end LineBasic
