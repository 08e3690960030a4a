import LineBasic.Proofs.Text.Lines
import LineBasic.Proofs.Text.Trim

/-!
# Texts that are lines as they stand

A text is *tight* if it has visible characters at both ends and holds no line feed. Such a text is a
line by itself: trimming and taking off a line end leave it as it is, also with a blank in front,
and tight texts with a line feed behind each are read as lines one by one.

Tight texts may hold blanks and carriage returns between their ends, and then any text without a
line feed may stand between two tight ones.

## Main results

* `Tight.between`: a text that begins and ends with tight ones is tight;
* `Tight.trim_between`, `Tight.dropLineEnd_append`: nothing is taken off a tight text;
* `lines_of_tight`: the lines of tight texts.
-/

namespace LineBasic.Text

/-- A text in one line, with visible characters at both ends. -/
structure Tight (text : List Char) : Prop where
  no_lineFeed : '\n' ∉ text
  ne_nil : text ≠ []
  head_visible : Stops isBlank text
  last_visible : Stops isBlank text.reverse

namespace Tight

/-- A text of visible characters. -/
theorem of_visible {text : List Char} (hne : text ≠ []) (h : ∀ c ∈ text, isBlank c = false) :
    Tight text where
  no_lineFeed hmem := absurd (h '\n' hmem) (by decide)
  ne_nil := hne
  head_visible c hc := h c (List.mem_of_mem_head? hc)
  last_visible c hc := h c (List.mem_reverse.mp (List.mem_of_mem_head? hc))

/-- Whether a text is visible shows in each of its characters. -/
theorem of_all {text : List Char} (hne : text ≠ []) (h : text.all fun c => !isBlank c) :
    Tight text :=
  of_visible hne fun c hc => by simpa using List.all_eq_true.mp h c hc

theorem of_char {c : Char} (h : isBlank c = false) : Tight [c] :=
  of_visible (by simp) fun d hd => by rw [List.mem_singleton.mp hd, h]

/-- Between two tight texts there may be any text without a line feed. -/
theorem between {before middle after : List Char} (hbefore : Tight before)
    (hmiddle : '\n' ∉ middle) (hafter : Tight after) :
    Tight (before ++ (middle ++ after)) where
  no_lineFeed := by
    simp only [List.mem_append, not_or]
    exact ⟨hbefore.no_lineFeed, hmiddle, hafter.no_lineFeed⟩
  ne_nil := by simp [hbefore.ne_nil]
  head_visible := hbefore.head_visible.append hbefore.ne_nil _
  last_visible := by
    have hne : after.reverse ≠ [] := by simp [hafter.ne_nil]
    rw [List.reverse_append, List.reverse_append, List.append_assoc]
    exact hafter.last_visible.append hne _

/-- A text ends visibly if a tight one is at its end. -/
theorem last_visible_append {text : List Char} (h : Tight text) (front : List Char) :
    Stops isBlank (front ++ text).reverse := by
  rw [List.reverse_append]
  exact h.last_visible.append (mt List.reverse_eq_nil_iff.mp h.ne_nil) front.reverse

theorem trim_eq {text : List Char} (h : Tight text) : trim text = text := by
  unfold trim
  rw [dropWhile_of_stops h.head_visible, dropEndWhile_of_stops h.last_visible]

/-- The line end is taken off behind a tight text. -/
theorem dropLineEnd_append {text : List Char} (h : Tight text) (front back : List Char) :
    dropLineEnd (front ++ text ++ back) = front ++ text ++ dropLineEnd back :=
  dropEndWhile_append_of_stops ((h.last_visible_append front).mono fun _ => isBlank_of_lineEnd) back

/-- Between blanks a tight text is what is left. -/
theorem trim_between {lead text trail : List Char} (h : Tight text)
    (hlead : ∀ c ∈ lead, isBlank c) (htrail : ∀ c ∈ trail, isBlank c) :
    trim (lead ++ text ++ trail) = text := by
  rw [trim_append_blank htrail]
  unfold trim
  rw [dropWhile_run hlead h.head_visible, dropEndWhile_of_stops h.last_visible]

theorem dropReturn_eq {text : List Char} (h : Tight text) : dropReturn text = text := by
  unfold dropReturn
  rw [if_neg]
  intro hlast
  rw [← List.head?_reverse] at hlast
  exact absurd (h.last_visible '\r' hlast) (by decide)

/-- A tight text in front of a line feed is the first line. -/
theorem lines_append {text : List Char} (h : Tight text) (rest : List Char) :
    lines (text ++ '\n' :: rest) = text :: lines rest := by
  rw [lines_append_lineFeed h.no_lineFeed, h.dropReturn_eq]

end Tight

/-- Tight texts with a line feed behind each are the lines of their text. -/
theorem lines_of_tight {texts : List (List Char)} (h : ∀ text ∈ texts, Tight text) :
    lines (texts.flatMap (· ++ ['\n'])) = texts := by
  induction texts with
  | nil => exact lines_nil
  | cons text later ih =>
      obtain ⟨htext, hlater⟩ := List.forall_mem_cons.mp h
      rw [List.flatMap_cons, List.append_assoc, List.singleton_append, htext.lines_append,
        ih hlater]

end LineBasic.Text
