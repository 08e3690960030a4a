import LineBasic.RuntimeError
import LineBasic.Text.Blank

/-!
# The console

What a program reads from and writes to: bytes not yet read, and bytes written. Reading goes by
lines, and a line is taken whole before anything is asked of it, so a line that is not UTF-8 is
gone even though reading it fails.

The sink may accept only so many bytes in all. A text that does not fit is written up to that
bound before writing it fails; a text that fits, the empty one included, never fails. Bytes once
written stay written.

Flushing may fail at some points of the output and not at others, and reading at some points of the
input, each with a fault of its own. A flush that fails takes nothing back, and a read that fails at
its point takes nothing.

## Main definitions

* `Faults`: where flushes and reads fail;
* `Console.write`, `Console.flush`, `Console.readLine`: the channels;
* `Console.ask`: a question and its line.
-/

namespace LineBasic

/-- The faults of a console, point by point. -/
structure Faults where
  /-- The fault of a flush behind these bytes, if it fails. -/
  flush : Array UInt8 → Option ChannelFault
  /-- The fault of reading in front of these bytes, if it fails. -/
  read : List UInt8 → Option ChannelFault

/-- The faults of a console at which every flush fails, or nothing does. -/
def Faults.ofFlag (flushFails : Bool) : Faults :=
  ⟨fun _ => if flushFails then some .flush else none, fun _ => none⟩

/-- A flag stands for these faults. -/
instance : Coe Bool Faults := ⟨Faults.ofFlag⟩

/-- The channels of a program. -/
structure Console where
  /-- The bytes not yet read. -/
  input : List UInt8
  /-- The bytes written so far. -/
  output : Array UInt8
  /-- How many bytes the sink accepts in all, if there is a bound. -/
  capacity : Option Nat
  /-- Where flushes and reads fail. -/
  faults : Faults

namespace Console

/-- A console with the given input, with no bound and no faults. -/
def ofInput (input : List UInt8) : Console := ⟨input, #[], none, false⟩

/-- The bytes of a text. -/
def encode (text : String) : List UInt8 := text.toUTF8.data.toList

/-- The text of a list of bytes, if it is UTF-8. -/
def decode? (bytes : List UInt8) : Option String := String.fromUTF8? ⟨bytes.toArray⟩

/-- Writes a text, or as much of it as fits. -/
def write (c : Console) (text : String) : Except ChannelFault Unit × Console :=
  let bytes := encode text
  match c.capacity with
  | none => (.ok (), { c with output := c.output ++ bytes })
  | some capacity =>
    let room := capacity - c.output.size
    if bytes.length ≤ room then (.ok (), { c with output := c.output ++ bytes })
    else (.error .full, { c with output := c.output ++ bytes.take room })

/-- Flushes the sink. -/
def flush (c : Console) : Except ChannelFault Unit :=
  match c.faults.flush c.output with
  | some fault => .error fault
  | none => .ok ()

/-- The first line of some bytes, with its line feed if it has one, and the bytes after it. -/
def splitLine (bytes : List UInt8) : List UInt8 × List UInt8 :=
  match bytes.dropWhile (· ≠ 10) with
  | [] => (bytes, [])
  | lineFeed :: rest => (bytes.takeWhile (· ≠ 10) ++ [lineFeed], rest)

/-- Reads a line, without the carriage returns and line feeds at its end; none if no input is
left. -/
def readLine (c : Console) : Except ChannelFault (Option String) × Console :=
  match c.faults.read c.input with
  | some fault => (.error fault, c)
  | none =>
    if c.input = [] then (.ok none, c)
    else
      let (line, rest) := splitLine c.input
      let left := { c with input := rest }
      match decode? line with
      | none => (.error .encoding, left)
      | some text => (.ok (some (String.ofList (Text.dropLineEnd text.toList))), left)

/-- Asks for a line: writes the prompt, flushes, and reads. -/
def ask (c : Console) : Except ChannelFault (Option String) × Console :=
  match c.write "? " with
  | (.error fault, c) => (.error fault, c)
  | (.ok (), c) =>
    match c.flush with
    | .error fault => (.error fault, c)
    | .ok () => c.readLine

end Console

end LineBasic
