import LineBasic.Text.Blank

/-!
# Where a run of characters stops

The readers of texts take the longest run of characters of some class off the front. A run is taken
whole, and nothing more, in front of a text that does not begin with a character of the class.
-/

namespace LineBasic.Text

/-- The text does not begin with a character of the class. -/
def Stops (p : Char → Bool) (text : List Char) : Prop := ∀ c ∈ text.head?, p c = false

@[simp] theorem stops_nil (p : Char → Bool) : Stops p [] := by simp [Stops]

@[simp] theorem stops_cons {p : Char → Bool} {c : Char} {text : List Char} :
    Stops p (c :: text) ↔ p c = false := by simp [Stops]

/-- A smaller class is not at the front either. -/
theorem Stops.mono {p q : Char → Bool} {text : List Char} (h : Stops q text)
    (hpq : ∀ c, p c → q c) : Stops p text := fun c hc =>
  Bool.eq_false_iff.mpr fun hp => Bool.eq_false_iff.mp (h c hc) (hpq c hp)

/-- What follows a text that begins otherwise does not matter. -/
theorem Stops.append {p : Char → Bool} {text : List Char} (h : Stops p text) (hne : text ≠ [])
    (more : List Char) : Stops p (text ++ more) := by
  cases text with
  | nil => exact absurd rfl hne
  | cons c rest => exact h

theorem takeWhile_of_stops {p : Char → Bool} {text : List Char} (h : Stops p text) :
    text.takeWhile p = [] := by
  cases text with
  | nil => rfl
  | cons c rest => simp [stops_cons.mp h]

theorem dropWhile_of_stops {p : Char → Bool} {text : List Char} (h : Stops p text) :
    text.dropWhile p = text := by
  cases text with
  | nil => rfl
  | cons c rest => simp [stops_cons.mp h]

/-- A run of the class is taken whole. -/
theorem takeWhile_run {p : Char → Bool} {run rest : List Char} (hrun : ∀ c ∈ run, p c)
    (hrest : Stops p rest) : (run ++ rest).takeWhile p = run := by
  rw [List.takeWhile_append_of_pos hrun, takeWhile_of_stops hrest, List.append_nil]

/-- Behind a run of the class, the rest is left. -/
theorem dropWhile_run {p : Char → Bool} {run rest : List Char} (hrun : ∀ c ∈ run, p c)
    (hrest : Stops p rest) : (run ++ rest).dropWhile p = rest := by
  rw [List.dropWhile_append_of_pos hrun, dropWhile_of_stops hrest]

end LineBasic.Text
