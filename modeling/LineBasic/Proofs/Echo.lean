import LineBasic.Proofs.Copying
import LineBasic.Proofs.Kinds
import LineBasic.Proofs.Number.Reading
import LineBasic.Proofs.Text.Bytes

/-!
# Numbers that are printed and typed again

`PRINT` writes a number's text and a line feed. `INPUT` takes a line off, and reads what is left of
it between blanks. The text of a number is one line without blanks, so it comes through this as it
is, and reading it gives the number: a program that prints a number, and one that is given its output
to read, hold the same value, whichever it is.

## Main results

* `Console.readLine_text`: a line that was written is read as its text;
* `Value.ofInput_print`: the text of a number gives a numeric variable the number;
* `Value.echoes_number`: printing and reading a number.
-/

namespace LineBasic

open Text (Tight)

/-! ## One line -/

namespace Console

/-- The bytes of a text without a line feed hold none. -/
theorem lineFeed_not_mem_encode {text : String} (h : '\n' ∉ text.toList) : 10 ∉ encode text := by
  intro hmem
  rw [encode_eq] at hmem
  obtain ⟨c, hc, hbyte⟩ := List.mem_flatMap.mp hmem
  by_cases hascii : c.toNat < 128
  · rw [utf8EncodeChar_of_lt hascii, List.mem_singleton] at hbyte
    have hcode : c.toNat = '\n'.toNat := by
      have hvalue := congrArg UInt8.toNat hbyte
      rw [UInt8.toNat_ofNat_of_lt' (Nat.lt_trans hascii (by decide))] at hvalue
      exact hvalue.symm
    exact h (Char.toNat_inj.mp hcode ▸ hc)
  · exact absurd (le_of_mem_utf8EncodeChar (Nat.le_of_not_lt hascii) 10 hbyte) (by decide)

theorem encode_line (text : String) (more : List UInt8) :
    encode (text ++ "\n") ++ more = encode text ++ 10 :: more := by
  rw [encode_append, List.append_assoc]
  rfl

/-- A line that was written is the first one of the bytes that begin with it. -/
theorem splitLine_text {text : String} (h : '\n' ∉ text.toList) (more : List UInt8) :
    splitLine (encode (text ++ "\n") ++ more) = (encode (text ++ "\n"), more) := by
  have hrun : ∀ byte ∈ encode text, decide (byte ≠ 10) = true := by
    intro byte hmem
    refine decide_eq_true fun hfeed => ?_
    exact lineFeed_not_mem_encode h (hfeed ▸ hmem)
  have hline := encode_line text []
  rw [List.append_nil] at hline
  unfold splitLine
  rw [encode_line, hline, List.dropWhile_append_of_pos hrun,
    List.dropWhile_cons_of_neg (by simp), List.takeWhile_append_of_pos hrun,
    List.takeWhile_cons_of_neg (by simp), List.append_nil]

/-- A line that was written is read as its text. -/
theorem readLine_text {c : Console} {text : String} {more : List UInt8} (h : Tight text.toList)
    (hinput : c.input = encode (text ++ "\n") ++ more) (hread : c.faults.read c.input = none) :
    c.readLine = (.ok (some text), { c with input := more }) := by
  have hne : c.input ≠ [] := by
    rw [hinput, encode_line]
    exact List.append_ne_nil_of_right_ne_nil _ (List.cons_ne_nil 10 more)
  have hend : Text.dropLineEnd (text ++ "\n").toList = text.toList := by
    have hdrop := h.dropLineEnd_append [] ['\n']
    have hfeed : Text.dropLineEnd ['\n'] = [] := rfl
    rw [String.toList_append]
    rwa [hfeed, List.append_nil] at hdrop
  unfold readLine
  rw [hread]
  dsimp only
  rw [if_neg hne, hinput, splitLine_text h.no_lineFeed]
  dsimp only
  rw [decode?_encode]
  dsimp only
  rw [hend, String.ofList_toList]

end Console

/-! ## Numbers -/

namespace Value

theorem toList_print (x : Float) : (number x).print.toList = layout.datum (.ofFloat x) :=
  String.toList_ofList

/-- A printed number is one line, with nothing to trim. -/
theorem print_tight (x : Float) : Tight (number x).print.toList := by
  rw [toList_print]
  exact layout.datum_tight x

/-- The text of a number gives a numeric variable the number. -/
theorem ofInput_print {name : String} (h : Kind.ofName name = .number) (x : Float) :
    ofInput name (some (number x).print) = .ok (.number x) := by
  have htrim : Text.trim (number x).print.toList = layout.datum (.ofFloat x) := by
    rw [(print_tight x).trim_eq, toList_print]
  simp only [ofInput, h, htrim, layout.read?_datum, Binary64.toFloat_ofFloat]

/-- **A number that is printed can be read back**, whichever it is. Where a statement that prints a
number succeeds, it appends the text of the number and a line feed. Where these bytes are first in
the input and the question gets through, a statement that reads a numeric variable succeeds, takes
exactly these bytes, and leaves the same number in the variable. -/
theorem echoes_number (x : Float) :
    (∀ (e : Expr) (s : State) (written : Console), e.eval s.store = .ok (.number x) →
      s.console.write ((number x).print ++ "\n") = (.ok (), written) →
        (Statement.print [e]).execute s = (.ok .onward, { s with console := written }) ∧
          written.output.toList =
            s.console.output.toList ++ Console.encode ((number x).print ++ "\n")) ∧
      ∀ (name : String) (s : State) (more : List UInt8), Kind.ofName name = .number →
        s.console.prompts →
          s.console.input = Console.encode ((number x).print ++ "\n") ++ more →
            ∃ store, (Statement.input name).execute s =
                (.ok .onward, ⟨store, { (s.console.write "? ").2 with input := more }⟩) ∧
              s.store.set name (.number x) = .ok store ∧ store.get name = .number x := by
  refine ⟨fun e s written heval hwrite => ⟨?_, Console.output_write hwrite⟩,
    fun name s more hname hprompts hinput => ?_⟩
  · have hvalues : [e].mapM (Expr.eval s.store) = .ok [.number x] := by
      simp only [List.mapM_cons, List.mapM_nil, heval]
      rfl
    have hline : " ".intercalate ([number x].map print) = (number x).print := rfl
    simp only [Statement.execute, Statement.select, Action.perform, hvalues, hline, hwrite]
  · obtain ⟨store, hset, hget⟩ := @Store.exists_set s.store name (.number x) hname.symm
    have hprompted : (s.console.write "? ").2.input =
        Console.encode ((number x).print ++ "\n") ++ more := by
      rw [Console.input_write, hinput]
    obtain ⟨hannounces, hpoint⟩ := Console.prompts_iff.mp hprompts
    rw [← s.console.read_write "? "] at hpoint
    have hread := Console.readLine_text (print_tight x) hprompted hpoint
    refine ⟨store, ?_, hset, hget⟩
    simp only [Statement.execute, Statement.select, Action.perform,
      Console.ask_of_announces hannounces, hread, ofInput_print hname, State.assign, hset]

/-- The number `-2 ^ -30`. -/
def tiny : Float := Float.ofBits 0xBE10000000000000

/-- A program that holds the number in `X`. -/
def holding : State := ⟨{ Store.empty with numbers := Table.empty.set "X" tiny }, .ofInput []⟩

/-- A program that is given the line, and more input behind it. -/
def waiting : State := ⟨.empty, .ofInput (Console.encode "-9.313225746154785e-10\n7")⟩

/-- A negative number with an exponent is printed from one variable, and read into another. -/
theorem echoes_number_tiny :
    (∃ written, (Statement.print [.variable "X"]).execute holding =
        (.ok .onward, { holding with console := written }) ∧
      written.output.toList = Console.encode "-9.313225746154785e-10\n") ∧
      ∃ store, (Statement.input "Y").execute waiting =
          (.ok .onward, ⟨store, { (waiting.console.write "? ").2 with input := [55] }⟩) ∧
        store.get "Y" = .number tiny := by
  have hline : (number tiny).print ++ "\n" = "-9.313225746154785e-10\n" := by decide +kernel
  have hheld : holding.store.get "X" = .number tiny := by decide +kernel
  have heval : (Expr.variable "X").eval holding.store = .ok (.number tiny) :=
    congrArg Except.ok hheld
  have hinput : waiting.console.input = Console.encode "-9.313225746154785e-10\n" ++ [55] := by
    decide +kernel
  obtain ⟨hprints, hreads⟩ := echoes_number tiny
  rw [hline] at hprints hreads
  obtain ⟨written, hwrite, -⟩ :=
    (⟨rfl, fun _ => rfl⟩ : holding.console.Reliable).exists_write "-9.313225746154785e-10\n"
  obtain ⟨hexecute, houtput⟩ := hprints _ holding written heval hwrite
  have hempty : holding.console.output.toList = [] := rfl
  rw [hempty, List.nil_append] at houtput
  obtain ⟨store, hexecute', -, hget⟩ := hreads "Y" waiting [55] (by decide) (by decide) hinput
  exact ⟨⟨written, hexecute, houtput⟩, store, hexecute', hget⟩

end Value

end LineBasic
