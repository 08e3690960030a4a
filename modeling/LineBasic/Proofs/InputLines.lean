import LineBasic.Proofs.Output

/-!
# The lines of the input

The bytes that a program reads are lines: each ends after its line feed, and the last one may lack
it. Reading takes the first line off, whatever is in it, and gives its text without the line end; if
there is no line it gives nothing. Asking does the same once the prompt is out, and takes no line
before, nor where reading fails at once.

The lines that are left are the lines that there were, without the first. Everything about the order
of reading follows from that.

## Main definitions

* `Console.inputLines`: the lines of some bytes;
* `Console.reply`: what reading a line comes to.

## Main results

* `Console.readLine_eq`: reading by lines;
* `Console.result_ask`, `Console.inputLines_ask`, `Console.input_ask`: asking by lines.
-/

namespace LineBasic.Console

/-! ## Bytes and lines -/

/-- The lines of some bytes. Each ends after a line feed, and the last one may lack it. -/
def inputLines : List UInt8 → List (List UInt8)
  | [] => []
  | byte :: later =>
    if byte = 10 then [byte] :: inputLines later
    else
      match inputLines later with
      | [] => [[byte]]
      | line :: lines => (byte :: line) :: lines

/-- The lines are the bytes, cut up. -/
theorem flatten_inputLines (bytes : List UInt8) : (inputLines bytes).flatten = bytes := by
  induction bytes with
  | nil => rfl
  | cons byte later ih =>
      unfold inputLines
      split
      · rw [List.flatten_cons, ih]
        rfl
      · split
        · next hlater =>
          rw [← ih, hlater]
          rfl
        · next hlater =>
          rw [← ih, hlater]
          rfl

/-- The first line is the one that is split off. -/
theorem inputLines_of_ne_nil {bytes : List UInt8} (h : bytes ≠ []) :
    inputLines bytes = (splitLine bytes).1 :: inputLines (splitLine bytes).2 := by
  induction bytes with
  | nil => exact absurd rfl h
  | cons byte later ih =>
      rw [inputLines]
      by_cases hfeed : byte = 10
      · simp [splitLine, hfeed]
      · have hsplit :
            splitLine (byte :: later) = (byte :: (splitLine later).1, (splitLine later).2) := by
          unfold splitLine
          rw [List.dropWhile_cons_of_pos (by simpa using hfeed),
            List.takeWhile_cons_of_pos (by simpa using hfeed)]
          cases later.dropWhile (· ≠ 10) <;> rfl
        rw [if_neg hfeed, hsplit]
        cases later with
        | nil => rfl
        | cons next later =>
            rw [ih (List.cons_ne_nil next later)]

/-- Bytes behind their first line have the other lines. -/
theorem inputLines_flatten_tail (bytes : List UInt8) :
    inputLines (inputLines bytes).tail.flatten = (inputLines bytes).tail := by
  by_cases h : bytes = []
  · rw [h]
    rfl
  · rw [inputLines_of_ne_nil h, List.tail_cons, flatten_inputLines]

/-! ## Reading and asking -/

/-- What reading a line comes to, where it does not fail at once. -/
def reply : Option (List UInt8) → Except ChannelFault (Option String)
  | none => .ok none
  | some line =>
    match decode? line with
    | none => .error .encoding
    | some text => .ok (some (String.ofList (Text.dropLineEnd text.toList)))

variable {c : Console}

/-- Reading takes the first line, and nothing else. -/
theorem readLine_eq (h : c.faults.read c.input = none) :
    c.readLine =
      (reply (inputLines c.input).head?, { c with input := (inputLines c.input).tail.flatten }) := by
  unfold readLine
  rw [h]
  dsimp only
  by_cases hinput : c.input = []
  · obtain ⟨input, output, capacity, faults⟩ := c
    subst hinput
    rfl
  · rw [if_neg hinput, inputLines_of_ne_nil hinput, List.head?_cons, List.tail_cons,
      flatten_inputLines]
    unfold reply
    dsimp only
    cases decode? (splitLine c.input).1 <;> rfl

/-- A question that gets through is a prompt that is written, and the first line. -/
theorem ask_eq (h : c.prompts) :
    c.ask = (reply (inputLines c.input).head?,
      { (c.write "? ").2 with input := (inputLines c.input).tail.flatten }) := by
  obtain ⟨hannounces, hread⟩ := prompts_iff.mp h
  rw [← c.read_write "? "] at hread
  rw [ask_of_announces hannounces, readLine_eq hread, input_write]

/-- What is asked for is the first line. -/
theorem result_ask (h : c.prompts) : c.ask.1 = reply (inputLines c.input).head? := by
  rw [ask_eq h]

/-- Asking takes the first line. -/
theorem inputLines_ask (h : c.prompts) : inputLines c.ask.2.input = (inputLines c.input).tail := by
  rw [ask_eq h]
  exact inputLines_flatten_tail c.input

/-- A question that does not get through takes nothing. -/
theorem input_ask (h : ¬c.prompts) : c.ask.2.input = c.input := by
  obtain ⟨fault, hask⟩ := ask_of_not_prompts h
  rw [hask, input_write]

end LineBasic.Console
