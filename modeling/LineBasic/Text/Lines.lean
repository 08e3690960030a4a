/-!
# The lines of a text

A line ends after a line feed; the last line may lack one, and a text that ends in a line feed has
no empty line after it. A carriage return directly before the line feed belongs to the line end.
A carriage return anywhere else, also at the very end of a text without a final line feed, is part
of its line.
-/

namespace LineBasic.Text

/-- A line without the carriage return that its line feed followed. -/
def dropReturn (line : List Char) : List Char :=
  if line.getLast? = some '\r' then line.dropLast else line

/-- The lines of a text, without their line ends. -/
def lines (text : List Char) : List (List Char) :=
  match _h : text.dropWhile (· ≠ '\n') with
  | [] => if text = [] then [] else [text]
  | _ :: rest => dropReturn (text.takeWhile (· ≠ '\n')) :: lines rest
termination_by text.length
decreasing_by
  have hshorter := (List.dropWhile_sublist (l := text) (· ≠ '\n')).length_le
  rw [_h, List.length_cons] at hshorter
  omega

end LineBasic.Text
