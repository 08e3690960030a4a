import LineBasic.Proofs.Text.Stops
import LineBasic.Text.Blank

/-!
# Trimming

What is left of a text when it is trimmed begins and ends with visible characters, and a trimmed
text depends on nothing that was taken off: blanks at the end of the text, a line end among them, do
not matter, and neither do blanks in front of its first visible character.

## Main results

* `stops_trim`, `stops_reverse_trim`: the ends of a trimmed text are visible;
* `trim_dropLineEnd`: taking off the line end first does not matter;
* `trim_of_visible`: a trimmed text begins with the first visible character.
-/

namespace LineBasic.Text

variable {p : Char → Bool}

/-! ## Taking a class off the end -/

/-- A text is what is kept of it, and a run of the class behind that. -/
theorem exists_dropEndWhile_append (p : Char → Bool) (text : List Char) :
    ∃ tail, (∀ c ∈ tail, p c) ∧ text = dropEndWhile p text ++ tail := by
  refine ⟨(text.reverse.takeWhile p).reverse, fun c hc => ?_, ?_⟩
  · exact List.all_eq_true.mp List.all_takeWhile c (List.mem_reverse.mp hc)
  · unfold dropEndWhile
    rw [← List.reverse_append, List.takeWhile_append_dropWhile, List.reverse_reverse]

/-- A run of the class at the end is taken off. -/
theorem dropEndWhile_append {tail : List Char} (h : ∀ c ∈ tail, p c) (text : List Char) :
    dropEndWhile p (text ++ tail) = dropEndWhile p text := by
  have htail : ∀ c ∈ tail.reverse, p c := fun c hc => h c (List.mem_reverse.mp hc)
  unfold dropEndWhile
  rw [List.reverse_append, List.dropWhile_append_of_pos htail]

/-- A character of another class stays, with all that is in front of it. -/
theorem dropEndWhile_cons {c : Char} (h : p c = false) (text : List Char) :
    dropEndWhile p (c :: text) = c :: dropEndWhile p text := by
  unfold dropEndWhile
  rw [List.reverse_cons, List.dropWhile_append]
  split
  · next hempty =>
    rw [List.isEmpty_iff.mp hempty]
    simp [h]
  · simp

/-- A text whose last character is of another class has no run of the class at its end. -/
theorem eq_nil_of_stops_reverse {text tail : List Char} (h : Stops p (text ++ tail).reverse)
    (htail : ∀ c ∈ tail, p c) : tail = [] := by
  rw [List.reverse_append] at h
  cases hreverse : tail.reverse with
  | nil => exact List.reverse_eq_nil_iff.mp hreverse
  | cons last more =>
      rw [hreverse, List.cons_append] at h
      have hmem : last ∈ tail := by
        rw [← List.mem_reverse, hreverse]
        exact List.mem_cons_self
      exact absurd (htail last hmem) (Bool.eq_false_iff.mp (stops_cons.mp h))

/-- Nothing is taken off behind a character of another class. -/
theorem dropEndWhile_of_stops {text : List Char} (h : Stops p text.reverse) :
    dropEndWhile p text = text := by
  unfold dropEndWhile
  rw [dropWhile_of_stops h, List.reverse_reverse]

/-- Behind a character of another class, only what follows is taken off. -/
theorem dropEndWhile_append_of_stops {text : List Char} (h : Stops p text.reverse)
    (tail : List Char) :
    dropEndWhile p (text ++ tail) = text ++ dropEndWhile p tail := by
  unfold dropEndWhile
  rw [List.reverse_append, List.dropWhile_append]
  split
  · next hempty =>
    rw [dropWhile_of_stops h, List.isEmpty_iff.mp hempty, List.reverse_reverse]
    simp
  · rw [List.reverse_append, List.reverse_reverse]

/-! ## Trimming -/

/-- What is behind a run of the class does not begin with a character of it. -/
theorem stops_dropWhile (p : Char → Bool) (text : List Char) : Stops p (text.dropWhile p) := by
  induction text with
  | nil => exact stops_nil p
  | cons c rest ih =>
      by_cases hc : p c
      · rwa [List.dropWhile_cons_of_pos hc]
      · rw [List.dropWhile_cons_of_neg hc]
        exact stops_cons.mpr (Bool.eq_false_iff.mpr hc)

theorem stops_trim (text : List Char) : Stops isBlank (trim text) := by
  have hfront := stops_dropWhile isBlank text
  unfold trim
  cases hvisible : text.dropWhile isBlank with
  | nil => exact stops_nil isBlank
  | cons c rest =>
      rw [hvisible] at hfront
      rw [dropEndWhile_cons (stops_cons.mp hfront)]
      exact hfront

theorem stops_reverse_trim (text : List Char) : Stops isBlank (trim text).reverse := by
  unfold trim dropEndWhile
  rw [List.reverse_reverse]
  exact stops_dropWhile isBlank _

/-- A text with visible ends is what is left of it behind a space. -/
theorem trim_space {text : List Char} (hhead : Stops isBlank text)
    (hlast : Stops isBlank text.reverse) : trim (' ' :: text) = text := by
  unfold trim
  rw [List.dropWhile_cons_of_pos (by decide), dropWhile_of_stops hhead, dropEndWhile_of_stops hlast]

/-- Blanks at the end do not matter. -/
theorem trim_append_blank {tail : List Char} (h : ∀ c ∈ tail, isBlank c) (text : List Char) :
    trim (text ++ tail) = trim text := by
  unfold trim
  rw [List.dropWhile_append]
  split
  · next hempty =>
    have htail : tail.dropWhile isBlank = [] := by
      simpa using dropWhile_run h (stops_nil isBlank)
    rw [List.isEmpty_iff.mp hempty, htail]
  · exact dropEndWhile_append h _

/-- Line ends are blanks. -/
theorem isBlank_of_lineEnd {c : Char} (h : (decide (c = '\r') || decide (c = '\n')) = true) :
    isBlank c := by
  simp only [Bool.or_eq_true, decide_eq_true_eq] at h
  rcases h with rfl | rfl
  · decide
  · decide

/-- A line is what it is without its line end, and blanks. -/
theorem exists_dropLineEnd_append (line : List Char) :
    ∃ ending, (∀ c ∈ ending, isBlank c) ∧ line = dropLineEnd line ++ ending := by
  obtain ⟨ending, hending, hline⟩ :=
    exists_dropEndWhile_append (fun c => decide (c = '\r') || decide (c = '\n')) line
  exact ⟨ending, fun c hc => isBlank_of_lineEnd (hending c hc), hline⟩

/-- A line is trimmed of its line end. -/
theorem trim_dropLineEnd (line : List Char) : trim (dropLineEnd line) = trim line := by
  obtain ⟨ending, hending, hline⟩ := exists_dropLineEnd_append line
  rw [← trim_append_blank hending (dropLineEnd line)]
  exact congrArg trim hline.symm

/-- Behind blanks, a trimmed text begins with the first visible character. -/
theorem trim_of_visible {front : List Char} {c : Char} (hfront : ∀ d ∈ front, isBlank d)
    (hc : isBlank c = false) (rest : List Char) :
    trim (front ++ c :: rest) = c :: dropEndWhile isBlank rest := by
  have hstop : Stops isBlank (c :: rest) := stops_cons.mpr hc
  unfold trim
  rw [dropWhile_run hfront hstop, dropEndWhile_cons hc]

/-- A text is blanks, what it is trimmed to, and blanks. -/
theorem exists_trim (text : List Char) :
    ∃ lead trail, text = lead ++ trim text ++ trail ∧ (∀ c ∈ lead, isBlank c) ∧
      ∀ c ∈ trail, isBlank c := by
  obtain ⟨trail, htrail, hvisible⟩ := exists_dropEndWhile_append isBlank (text.dropWhile isBlank)
  refine ⟨text.takeWhile isBlank, trail, ?_, List.all_eq_true.mp List.all_takeWhile, htrail⟩
  have htext := List.takeWhile_append_dropWhile (p := isBlank) (l := text)
  rw [trim, List.append_assoc, ← hvisible, htext]

end LineBasic.Text
