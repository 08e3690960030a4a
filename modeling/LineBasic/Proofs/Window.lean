import LineBasic.Proofs.Segments
import LineBasic.SyntaxError

/-!
# A window on the tokens of a source

A reader need not have all tokens of a source at hand. A *window* has two of them, and a scanner
that finds the others one at a time, as the window is shifted. Beyond the last token it finds the
end of the source, however often it is shifted.

What is read from a window is a value or an error, and either way the window that is left; or it is
nothing at all, if reading does not come to an end where it may end. A reader that looks at the two
tokens, and shifts the window and does nothing else to it, can be followed on a list of tokens: if
the window shows the list, what it is left with shows the list without its first tokens, as many as
there were shifts (`Reads`). So what such a reader leaves is never more than an end of what it was
given.

## Main definitions

* `Window`, `Window.shift`: two tokens and a scanner behind them;
* `Window.ahead`, `Window.Shows`: the tokens that are still to come;
* `Reading`: what is read from a window;
* `Reads`: reading, followed on a list of tokens.

## Main results

* `Window.shows_start`: a window on a source shows the tokens of the source;
* `Reads.bind`, `Reads.bind_fault`: one reading after another.
-/

namespace LineBasic

/-! ## Scanners -/

/-- The token that is found; none at the end of the source. -/
def Found.token? : Found → Option Token
  | .token span => some span.token
  | .ended _ => none

namespace Scanner

/-- The tokens that a scanner will find, one after another, and none from the end on. -/
def ahead : Scanner → Nat → Option Token
  | s, 0 => s.next.1.token?
  | s, i + 1 => s.next.2.ahead i

/-- What is found next is the first token, and the others are behind it. -/
theorem next_eq (s : Scanner) :
    s.next.1.token? = (Token.ofText s.text).head? ∧
      Token.ofText s.next.2.text = (Token.ofText s.text).tail := by
  unfold next
  dsimp only
  cases htext : s.text.dropWhile isGap with
  | nil =>
      rw [Token.ofText_of_blank htext]
      exact ⟨rfl, Token.ofText_nil⟩
  | cons c rest =>
      rw [Token.ofText_of_dropWhile htext]
      exact ⟨rfl, rfl⟩

/-- A scanner finds the tokens of the text behind it. -/
theorem ahead_eq (s : Scanner) (i : Nat) : s.ahead i = (Token.ofText s.text)[i]? := by
  obtain ⟨hfound, hlater⟩ := s.next_eq
  induction i generalizing s with
  | zero => rw [ahead, hfound, List.head?_eq_getElem?]
  | succ i ih =>
      obtain ⟨hfound', hlater'⟩ := s.next.2.next_eq
      rw [ahead, ih _ hfound' hlater', hlater, List.getElem?_tail]

end Scanner

/-! ## Windows -/

/-- Two tokens of a source, and a scanner for those behind them. -/
structure Window where
  current : Option Token
  peek : Option Token
  scanner : Scanner

namespace Window

/-- The window on the first two tokens of a source. -/
def start (source : String) : Window :=
  let first := (Scanner.start source).next
  let second := first.2.next
  ⟨first.1.token?, second.1.token?, second.2⟩

/-- The window one token further. -/
def shift (w : Window) : Window := ⟨w.peek, w.scanner.next.1.token?, w.scanner.next.2⟩

/-- The window some tokens further. -/
def after : Window → Nat → Window
  | w, 0 => w
  | w, k + 1 => w.shift.after k

/-- The tokens that are still to come: the two in the window and those that the scanner will find.
There is none from the end of the source on. -/
def ahead (w : Window) : Nat → Option Token
  | 0 => w.current
  | 1 => w.peek
  | i + 2 => w.scanner.ahead i

/-- The tokens to come are those of a list. -/
def Shows (w : Window) (tokens : List Token) : Prop := ∀ i, w.ahead i = tokens[i]?

theorem ahead_shift (w : Window) (i : Nat) : w.shift.ahead i = w.ahead (i + 1) := by
  cases i with
  | zero => rfl
  | succ i => cases i <;> rfl

theorem ahead_after (w : Window) (k i : Nat) : (w.after k).ahead i = w.ahead (k + i) := by
  induction k generalizing w with
  | zero => rw [Nat.zero_add]; rfl
  | succ k ih => rw [after, ih, ahead_shift, Nat.add_right_comm]

theorem after_add (w : Window) (k l : Nat) : (w.after k).after l = w.after (k + l) := by
  induction k generalizing w with
  | zero => rw [Nat.zero_add]; rfl
  | succ k ih => rw [Nat.succ_add, after, after, ih]

variable {w : Window} {tokens : List Token}

theorem Shows.current_eq (h : w.Shows tokens) : w.current = tokens.head? :=
  (h 0).trans List.head?_eq_getElem?.symm

/-- A window that is shifted shows the tokens without the first ones. -/
theorem Shows.after (h : w.Shows tokens) (k : Nat) : (w.after k).Shows (tokens.drop k) := by
  intro i
  rw [ahead_after, h, List.getElem?_drop]

/-- A window on a source shows the tokens of the source. -/
theorem shows_start (source : String) : (start source).Shows (Token.ofText source.toList) := by
  intro i
  have hsource := (Scanner.start source).ahead_eq i
  rw [Scanner.start] at hsource
  rw [← hsource]
  cases i with
  | zero => rfl
  | succ i => cases i <;> rfl

end Window

/-! ## Reading from a window -/

/-- What is read from a window: a value or an error with the window that is left, if reading comes
to an end. -/
abbrev Reading (α : Type) := ExceptT SyntaxError (StateT Window Option) α

namespace Reading

variable {α : Type}

/-- What comes of reading from a window. -/
def outcome (x : Reading α) (w : Window) : Option (Except SyntaxError α × Window) := x.run.run w

/-- The token in front. -/
def current : Reading (Option Token) := do return (← get).current

/-- The token behind the one in front. -/
def peek : Reading (Option Token) := do return (← get).peek

/-- Takes the token in front. -/
def advance : Reading (Option Token) := modifyGet fun w => (w.current, w.shift)

/-- What is not meant to be reached. -/
def never : Reading α := ExceptT.mk fun _ => none

end Reading

/-- From every window that shows some tokens the same comes of reading: a result, and the window
shifted to the tokens that are left. -/
def Reads {α : Type} (x : Reading α) (tokens : List Token) (result : Except SyntaxError α)
    (rest : List Token) : Prop :=
  ∃ k, rest = tokens.drop k ∧
    ∀ w : Window, w.Shows tokens → x.outcome w = some (result, w.after k)

namespace Reads

open Reading

variable {α β : Type} {x : Reading α} {f : α → Reading β} {a : α} {error : SyntaxError}
  {token : Token} {tokens middle rest : List Token} {result : Except SyntaxError β}

theorem pure (a : α) (tokens : List Token) : Reads (pure a) tokens (.ok a) tokens :=
  ⟨0, rfl, fun _ _ => rfl⟩

theorem throw (error : SyntaxError) (tokens : List Token) :
    Reads (throw error : Reading α) tokens (.error error) tokens := ⟨0, rfl, fun _ _ => rfl⟩

/-- A reading that goes on with what another one has found. -/
theorem bind (h : Reads x tokens (.ok a) middle) (hf : Reads (f a) middle result rest) :
    Reads (x >>= f) tokens result rest := by
  obtain ⟨k, rfl, hx⟩ := h
  obtain ⟨l, rfl, hfrom⟩ := hf
  refine ⟨k + l, List.drop_drop, fun w hw => ?_⟩
  have hfirst : x.run.run w = some (.ok a, w.after k) := hx w hw
  have hsecond : (f a).run.run (w.after k) = some (result, (w.after k).after l) :=
    hfrom _ (hw.after k)
  rw [Window.after_add] at hsecond
  simp only [outcome, ExceptT.run_bind, StateT.run_bind, hfirst]
  exact hsecond

/-- A reading that fails does not go on. -/
theorem bind_fault (h : Reads x tokens (.error error) rest) :
    Reads (x >>= f) tokens (.error error) rest := by
  obtain ⟨k, rfl, hx⟩ := h
  refine ⟨k, rfl, fun w hw => ?_⟩
  have hfirst : x.run.run w = some (.error error, w.after k) := hx w hw
  simp only [outcome, ExceptT.run_bind, StateT.run_bind, hfirst]
  rfl

/-- Looking at the token in front leaves all tokens. -/
theorem current_bind {f : Option Token → Reading β}
    (h : Reads (f tokens.head?) tokens result rest) :
    Reads (current >>= f) tokens result rest := by
  refine bind ⟨0, rfl, fun w hw => ?_⟩ h
  rw [← hw.current_eq]
  rfl

/-- So does looking at the one behind it. -/
theorem peek_bind {f : Option Token → Reading β} (h : Reads (f tokens[1]?) tokens result rest) :
    Reads (peek >>= f) tokens result rest := by
  refine bind ⟨0, rfl, fun w hw => ?_⟩ h
  rw [← hw 1]
  rfl

/-- Taking the token in front leaves the others. -/
theorem advance_bind {f : Option Token → Reading β}
    (h : Reads (f tokens.head?) tokens.tail result rest) :
    Reads (advance >>= f) tokens result rest := by
  refine bind ⟨1, List.drop_one.symm, fun w hw => ?_⟩ h
  rw [← hw.current_eq]
  rfl

end Reads

end LineBasic
