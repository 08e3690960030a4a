import LineBasic.Proofs.Text.Stops
import LineBasic.Text.Lines

/-!
# Lines and the texts they stand in

The lines at the beginning of a text are the lines of a text by themselves: a text can be cut
between any two of its lines, with every line end on the side of its line. Joining lines again would
not do, since a line may end in a carriage return that is part of it.

## Main results

* `lines_append_lineFeed`: the first line of a text;
* `exists_append_of_lines`: cutting a text between two lines;
* `no_lineFeed_of_mem_lines`: lines hold no line feed.
-/

namespace LineBasic.Text

theorem lines_nil : lines [] = [] := by
  unfold lines
  rfl

theorem mem_of_mem_dropReturn {line : List Char} {c : Char} (h : c ∈ dropReturn line) : c ∈ line := by
  unfold dropReturn at h
  split at h
  · exact (List.dropLast_sublist line).subset h
  · exact h

theorem ne_lineFeed {text : List Char} (h : '\n' ∉ text) : ∀ c ∈ text, decide (c ≠ '\n') :=
  fun _ hc => decide_eq_true fun heq => h (heq ▸ hc)

/-- A text without a line feed is one line, unless it is empty. -/
theorem lines_of_no_lineFeed {text : List Char} (h : '\n' ∉ text) :
    lines text = if text = [] then [] else [text] := by
  have hdrop := dropWhile_run (ne_lineFeed h) (stops_nil _)
  rw [List.append_nil] at hdrop
  unfold lines
  split
  · rfl
  · next hrest =>
    rw [hdrop] at hrest
    cases hrest

/-- What is in front of the first line feed is the first line, without a carriage return there. -/
theorem lines_append_lineFeed {text : List Char} (h : '\n' ∉ text) (rest : List Char) :
    lines (text ++ '\n' :: rest) = dropReturn text :: lines rest := by
  have hrun := ne_lineFeed h
  have hstop : Stops (fun c => decide (c ≠ '\n')) ('\n' :: rest) := by simp
  rw [lines]
  split
  · next hrest =>
    rw [dropWhile_run hrun hstop] at hrest
    cases hrest
  · next hrest =>
    rw [dropWhile_run hrun hstop] at hrest
    injection hrest with _ hrest
    rw [takeWhile_run hrun hstop, ← hrest]

/-- A text can be cut between any two of its lines. -/
theorem exists_append_of_lines {text : List Char} {earlier later : List (List Char)}
    (h : lines text = earlier ++ later) :
    ∃ front back, text = front ++ back ∧ lines front = earlier ∧ lines back = later := by
  induction earlier generalizing text with
  | nil => exact ⟨[], text, rfl, lines_nil, h⟩
  | cons line earlier ih =>
      by_cases hmem : '\n' ∈ text
      · obtain ⟨first, rest, rfl, hfirst⟩ := List.eq_append_cons_of_mem hmem
        rw [lines_append_lineFeed hfirst, List.cons_append] at h
        injection h with hline hrest
        obtain ⟨front, back, rfl, hfront, hback⟩ := ih hrest
        refine ⟨first ++ '\n' :: front, back, by simp, ?_, hback⟩
        rw [lines_append_lineFeed hfirst, hline, hfront]
      · have hlines := lines_of_no_lineFeed hmem
        rw [h] at hlines
        split at hlines
        · cases hlines
        · injection hlines with hline hnone
          obtain ⟨rfl, rfl⟩ := List.append_eq_nil_iff.mp hnone
          exact ⟨text, [], by simp, h, lines_nil⟩

/-- A line holds no line feed. -/
theorem no_lineFeed_of_mem_lines {text line : List Char} (h : line ∈ lines text) : '\n' ∉ line := by
  induction hlength : text.length using Nat.strongRecOn generalizing text with
  | ind length ih =>
      subst hlength
      by_cases hmem : '\n' ∈ text
      · obtain ⟨first, rest, rfl, hfirst⟩ := List.eq_append_cons_of_mem hmem
        rw [lines_append_lineFeed hfirst] at h
        rcases List.mem_cons.mp h with rfl | hlater
        · exact fun hc => hfirst (mem_of_mem_dropReturn hc)
        · exact ih rest.length (by simp; omega) hlater rfl
      · rw [lines_of_no_lineFeed hmem] at h
        split at h
        · cases h
        · rwa [List.mem_singleton.mp h]

end LineBasic.Text
