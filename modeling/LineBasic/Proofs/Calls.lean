import LineBasic.Proofs.Attempts

/-!
# The calls of the readers

The readers with a window call each other, and nothing in them says that this comes to an end. What
says it is a record of the calls: which reader was called, at which window, whether it found
something, which window it left, and which calls were made in the meantime.

A reading may note its calls, and without the notes be the reading that it was. A call is *sound* if
it was made where it may be made, has taken a token where it has found something, and has never put
one back; and if each call in it is sound and began with fewer tokens, or with as many and further
down in the order of the readers. The tokens counted are the two in the window and all that the
scanner is still to find.

What is shown of a reading is always of this kind: with a record it does what it does without, it
ends as described, and the calls that it notes are as described (`Records`). The readers themselves
are put together from such readings in `Progress`.

## Main definitions

* `Window.remaining`: how many tokens are still to come;
* `Call`, `Call.Sound`: a call with the calls made in it, and what is asked of it;
* `Recording`: reading with a record of the calls;
* `Records`: a reading with a record does what the reading without does, and its calls are sound.

## Main results

* `Frame.below_wellFounded`: calls cannot be made in one another forever;
* `Records.bind`, `Records.call`: one reading after another, and a call.
-/

namespace LineBasic

/-! ## The tokens that remain -/

namespace Window

/-- How many tokens are still to come: those in the window, and those that the scanner will find. -/
def remaining (w : Window) : Nat :=
  w.current.toList.length + w.peek.toList.length + (Token.ofText w.scanner.text).length

/-- How strongly the token in front binds what is before it. -/
def strength (w : Window) : Nat := (w.current.map Token.precedence).getD 0

variable {w : Window} {token : Token} {tokens : List Token}

/-- A shift takes the token in front, if there is one, and no other. -/
theorem remaining_eq (w : Window) : w.remaining = w.current.toList.length + w.shift.remaining := by
  obtain ⟨hfound, hlater⟩ := w.scanner.next_eq
  have hfront : (Token.ofText w.scanner.text).length =
      w.scanner.next.1.token?.toList.length + (Token.ofText w.scanner.next.2.text).length := by
    rw [hfound, hlater]
    cases Token.ofText w.scanner.text with
    | nil => rfl
    | cons token rest => exact (Nat.add_comm 1 _).symm
  -- What the scanner finds next moves into the window, and what was behind comes to the front.
  rw [remaining, hfront, Nat.add_assoc]
  congr 1
  exact (Nat.add_assoc _ _ _).symm

theorem remaining_shift_le (w : Window) : w.shift.remaining ≤ w.remaining := by
  rw [w.remaining_eq]
  exact Nat.le_add_left _ _

theorem remaining_shift_lt (h : w.current = some token) : w.shift.remaining < w.remaining := by
  rw [w.remaining_eq, h]
  exact Nat.lt_add_of_pos_left Nat.one_pos

/-- A window that shows a list has as many tokens to come. -/
theorem Shows.remaining_eq (h : w.Shows tokens) : w.remaining = tokens.length := by
  have hscanner : Token.ofText w.scanner.text = tokens.drop 2 := by
    apply List.ext_getElem?
    intro i
    rw [← w.scanner.ahead_eq, List.getElem?_drop, Nat.add_comm]
    exact h (i + 2)
  have hpeek : w.peek = tokens[1]? := h 1
  rw [remaining, hscanner, hpeek, h.current_eq]
  cases tokens with
  | nil => rfl
  | cons first tokens =>
      cases tokens with
      | nil => rfl
      | cons second rest => exact Nat.add_comm 2 rest.length

end Window

/-! ## Calls -/

/-- A literal or a variable. -/
def Token.isAtom : Token → Bool
  | .number _ | .text _ | .name _ => true
  | _ => false

/-- A reader that calls others, or is meant for some tokens only. -/
inductive Routine where
  | statement
  | assignment
  | print
  | conditional
  | expression (level : Nat)
  | operand
  | operation (binding : Nat)
  | atom
  deriving DecidableEq

namespace Routine

/-- Whoever is called where the caller was called, with no token taken in between, is of a lower
rank. -/
def rank : Routine → Nat
  | statement | expression _ => 2
  | assignment | print | conditional | operand | operation _ => 1
  | atom => 0

/-- Where a reader may be called. An operation begins with an operator that binds as it should, and
an atom is a literal or a variable. -/
def Begins : Routine → Window → Prop
  | print, w => w.current = some (.keyword .PRINT)
  | conditional, w => w.current = some (.keyword .IF)
  | operation binding, w => ∃ op, w.current = some (.operator op) ∧ op.precedence = binding
  | atom, w => ∃ token, w.current = some token ∧ token.isAtom
  | _, _ => True

/-- Where a reader that has found something may stop. An expression does not stop in front of an
operator that binds more than its level. -/
def Settled : Routine → Window → Prop
  | expression level, w => w.strength ≤ level
  | _, _ => True

end Routine

/-- A call as it begins: who is called, and at which window. -/
structure Frame where
  routine : Routine
  window : Window

namespace Frame

/-- The tokens that remain, and the rank of who is called. -/
def measure (frame : Frame) : Nat × Nat := (frame.window.remaining, frame.routine.rank)

/-- A call begins with fewer tokens than another one, or with as many and a lower rank. -/
def Below (inner outer : Frame) : Prop :=
  Prod.Lex (· < ·) (· < ·) inner.measure outer.measure

/-- Calls cannot be made in one another forever. -/
theorem below_wellFounded : WellFounded Below :=
  InvImage.wf measure (Prod.lex ⟨_, Nat.lt_wfRel.wf⟩ ⟨_, Nat.lt_wfRel.wf⟩).wf

variable {inner outer : Frame}

theorem Below.of_lt (h : inner.window.remaining < outer.window.remaining) : inner.Below outer :=
  .left _ _ h

theorem Below.of_rank {w : Window} {routine routine' : Routine} (h : routine.rank < routine'.rank) :
    Below ⟨routine, w⟩ ⟨routine', w⟩ := .right _ h

end Frame

/-- A call that has ended. -/
structure Call where
  frame : Frame
  /-- Something was found, and no error. -/
  succeeded : Bool
  /-- The window that is left. -/
  after : Window
  /-- The calls made in it, oldest first. -/
  inner : List Call

namespace Call

/-- A call was made where it may be made; it has taken a token if it has found something, and has
stopped where it may stop; and it leaves no more tokens than there were. -/
structure Answers (call : Call) : Prop where
  begins : call.frame.routine.Begins call.frame.window
  fewer : call.succeeded → call.after.remaining < call.frame.window.remaining
  noMore : call.after.remaining ≤ call.frame.window.remaining
  settled : call.succeeded → call.frame.routine.Settled call.after

/-- So it is with the call and all calls in it, and each of these begins below the one it was made
in. -/
inductive Sound : Call → Prop where
  | intro {call : Call} : call.Answers → (∀ made ∈ call.inner, made.frame.Below call.frame) →
      (∀ made ∈ call.inner, Sound made) → Sound call

end Call

/-! ## Reading with a record -/

/-- Reading from a window, with a record of the calls that have ended, oldest first. -/
abbrev Recording (α : Type) := ExceptT SyntaxError (StateT (Window × List Call) Option) α

namespace Recording

variable {α : Type}

/-- What comes of reading from a window after some calls. -/
def outcome (t : Recording α) (w : Window) (earlier : List Call) :
    Option (Except SyntaxError α × Window × List Call) := t.run.run (w, earlier)

/-- Reading that makes no calls. -/
def silently (x : Reading α) : Recording α :=
  ExceptT.mk fun s => (x.outcome s.1).map fun found => (found.1, found.2, s.2)

/-- Reading as one call, with those made in it recorded under it. -/
def call (routine : Routine) (body : Recording α) : Recording α :=
  ExceptT.mk fun s => (body.outcome s.1 []).map fun found =>
    (found.1, found.2.1, s.2 ++ [⟨⟨routine, s.1⟩, found.1.isOk, found.2.1, found.2.2⟩])

theorem outcome_call (routine : Routine) (body : Recording α) (w : Window) (earlier : List Call) :
    (call routine body).outcome w earlier = (body.outcome w []).map fun found =>
      (found.1, found.2.1, earlier ++ [⟨⟨routine, w⟩, found.1.isOk, found.2.1, found.2.2⟩]) := rfl

/-- The token in front. -/
def current : Recording (Option Token) := silently Reading.current

/-- The token behind the one in front. -/
def peek : Recording (Option Token) := silently Reading.peek

/-- Takes the token in front. -/
def advance : Recording (Option Token) := silently Reading.advance

/-- What is not meant to be reached. -/
def never : Recording α := silently Reading.never

end Recording

/-! ## Recorded readings -/

/-- If reading comes to an end, it does so with a result and a window as described. -/
def Ends {α : Type} (x : Reading α) (post : Except SyntaxError α → Window → Prop) (w : Window) :
    Prop := ∀ found, x.outcome w = some found → post found.1 found.2

namespace Ends

open Reading

variable {α β : Type} {a : α} {error : SyntaxError} {w : Window}
  {post : Except SyntaxError α → Window → Prop}

theorem pure (h : post (.ok a) w) : Ends (pure a) post w := by
  intro found hfound
  cases hfound
  exact h

theorem throw (h : post (.error error) w) : Ends (throw error) post w := by
  intro found hfound
  cases hfound
  exact h

theorem never : Ends (never : Reading α) post w := by
  intro found hfound
  have hnone : (Reading.never : Reading α).outcome w = none := rfl
  rw [hnone] at hfound
  cases hfound

/-- Taking the token in front leaves the window shifted. -/
theorem advance_bind {f : Option Token → Reading α} (h : Ends (f w.current) post w.shift) :
    Ends (advance >>= f) post w := h

end Ends

/-- From a window, a reading with a record does what a reading without one does, which ends as
described; and the calls that it records, whatever was recorded before, are as described too. -/
structure Records {α : Type} (made : Call → Prop) (x : Reading α) (t : Recording α)
    (post : Except SyntaxError α → Window → Prop) (w : Window) : Prop where
  ends : Ends x post w
  recorded : ∃ calls, (∀ call ∈ calls, made call) ∧ ∀ earlier,
    t.outcome w earlier = (x.outcome w).map fun found => (found.1, found.2, earlier ++ calls)

/-! A reading goes on exactly if it has found something. -/

section Bind

variable {ε σ α β : Type} {x : ExceptT ε (StateT σ Option) α}
  {f : α → ExceptT ε (StateT σ Option) β} {s s' : σ}

theorem run_bind_ok {a : α} (h : x.run.run s = some (.ok a, s')) :
    (x >>= f).run.run s = (f a).run.run s' := by
  simp only [ExceptT.run_bind, StateT.run_bind, h]
  rfl

theorem run_bind_error {error : ε} (h : x.run.run s = some (.error error, s')) :
    (x >>= f).run.run s = some (.error error, s') := by
  simp only [ExceptT.run_bind, StateT.run_bind, h]
  rfl

theorem run_bind_none (h : x.run.run s = none) : (x >>= f).run.run s = none := by
  simp only [ExceptT.run_bind, StateT.run_bind, h]
  rfl

end Bind

namespace Records

open Recording

variable {α β : Type} {made made' : Call → Prop} {x : Reading α} {t : Recording α} {a : α}
  {error : SyntaxError} {w : Window} {post post' : Except SyntaxError α → Window → Prop}

theorem silently (h : Ends x post w) : Records made x (silently x) post w :=
  ⟨h, [], nofun, fun earlier => by simp only [List.append_nil]; rfl⟩

theorem pure (h : post (.ok a) w) : Records made (pure a) (pure a) post w :=
  ⟨.pure h, [], nofun, fun earlier => by rw [List.append_nil]; rfl⟩

theorem throw (h : post (.error error) w) :
    Records made (throw error) (throw error) post w :=
  ⟨.throw h, [], nofun, fun earlier => by rw [List.append_nil]; rfl⟩

theorem never : Records made (Reading.never : Reading α) never post w := silently .never

theorem ite {p : Prop} [Decidable p] {x' : Reading α} {t' : Recording α}
    (hthen : p → Records made x t post w) (helse : ¬p → Records made x' t' post w) :
    Records made (if p then x else x') (if p then t else t') post w := by
  by_cases hp : p
  · rw [if_pos hp, if_pos hp]
    exact hthen hp
  · rw [if_neg hp, if_neg hp]
    exact helse hp

theorem mono (hmade : ∀ call, made call → made' call)
    (hpost : ∀ result later, post result later → post' result later)
    (h : Records made x t post w) : Records made' x t post' w := by
  obtain ⟨hends, calls, hcalls, hrecorded⟩ := h
  refine ⟨fun found hfound => hpost _ _ (hends found hfound), calls, ?_, hrecorded⟩
  exact fun call hcall => hmade call (hcalls call hcall)

/-- Looking at the token in front. -/
theorem current_bind {f : Option Token → Reading α} {g : Option Token → Recording α}
    (h : Records made (f w.current) (g w.current) post w) :
    Records made (Reading.current >>= f) (current >>= g) post w :=
  ⟨h.ends, h.recorded⟩

/-- Looking at the one behind it. -/
theorem peek_bind {f : Option Token → Reading α} {g : Option Token → Recording α}
    (h : Records made (f w.peek) (g w.peek) post w) :
    Records made (Reading.peek >>= f) (peek >>= g) post w :=
  ⟨h.ends, h.recorded⟩

/-- Taking the token in front. -/
theorem advance_bind {f : Option Token → Reading α} {g : Option Token → Recording α}
    (h : Records made (f w.current) (g w.current) post w.shift) :
    Records made (Reading.advance >>= f) (advance >>= g) post w :=
  ⟨h.ends, h.recorded⟩

/-- A reading that goes on with what another one has found records its calls behind those of the
other one. -/
theorem bind {middle : Except SyntaxError α → Window → Prop} {f : α → Reading β}
    {g : α → Recording β} {post : Except SyntaxError β → Window → Prop}
    (h : Records made x t middle w)
    (hf : ∀ a later, middle (.ok a) later → Records made (f a) (g a) post later)
    (herror : ∀ error later, middle (.error error) later → post (.error error) later) :
    Records made (x >>= f) (t >>= g) post w := by
  obtain ⟨hends, calls, hcalls, hrecorded⟩ := h
  -- What does not come to an end has no record, and what fails has that of the first reading.
  cases hread : x.outcome w with
  | none =>
      have hnone : (x >>= f).outcome w = none := run_bind_none hread
      refine ⟨fun found hfound => ?_, [], nofun, fun earlier => ?_⟩
      · rw [hnone] at hfound
        cases hfound
      · rw [hnone]
        refine run_bind_none ?_
        have hnone' := hrecorded earlier
        rw [hread] at hnone'
        exact hnone'
  | some found =>
      obtain ⟨result, later⟩ := found
      have hresult := hends _ hread
      have hrun : ∀ earlier, t.run.run (w, earlier) = some (result, later, earlier ++ calls) := by
        intro earlier
        have hrun := hrecorded earlier
        rw [hread] at hrun
        exact hrun
      cases result with
      | error error =>
          have hfault : (x >>= f).outcome w = some (.error error, later) := run_bind_error hread
          refine ⟨fun found hfound => ?_, calls, hcalls, fun earlier => ?_⟩
          · rw [hfault] at hfound
            cases hfound
            exact herror error later hresult
          · rw [hfault]
            exact run_bind_error (hrun earlier)
      | ok a =>
          obtain ⟨hends', more, hmore, hrecorded'⟩ := hf a later hresult
          have hgo : (x >>= f).outcome w = (f a).outcome later := run_bind_ok hread
          refine ⟨fun found hfound => hends' found (hgo ▸ hfound), calls ++ more, ?_, ?_⟩
          · exact List.forall_mem_append.mpr ⟨hcalls, hmore⟩
          · intro earlier
            rw [hgo]
            have hlater := hrecorded' (earlier ++ calls)
            rw [List.append_assoc] at hlater
            exact (run_bind_ok (hrun earlier)).trans hlater

end Records

/-! ## Recorded calls -/

/-- Fewer tokens are left than the limit after a success, and no more after a failure. -/
def Leaves {α : Type} (limit : Nat) : Except SyntaxError α → Window → Prop
  | .ok _, later => later.remaining < limit
  | .error _, later => later.remaining ≤ limit

/-- The same, and after a success the token in front does not bind more than the level. -/
def Settles {α : Type} (level limit : Nat) : Except SyntaxError α → Window → Prop
  | .ok _, later => later.remaining < limit ∧ later.strength ≤ level
  | .error _, later => later.remaining ≤ limit

section Limits

variable {α : Type} {m n level : Nat} {result : Except SyntaxError α} {later : Window}

theorem Leaves.mono (hmn : m ≤ n) (h : Leaves m result later) : Leaves n result later := by
  cases result with
  | ok a => exact Nat.lt_of_lt_of_le h hmn
  | error error => exact Nat.le_trans h hmn

theorem Leaves.noMore (h : Leaves n result later) : later.remaining ≤ n := by
  cases result with
  | ok a => exact Nat.le_of_lt h
  | error error => exact h

theorem Leaves.fewer (h : Leaves n result later) (hok : result.isOk) : later.remaining < n := by
  cases result with
  | ok a => exact h
  | error error => cases hok

theorem Settles.leaves (h : Settles level n result later) : Leaves n result later := by
  cases result with
  | ok a => exact h.1
  | error error => exact h

theorem Settles.settled (h : Settles level n result later) (hok : result.isOk) :
    later.strength ≤ level := by
  cases result with
  | ok a => exact h.2
  | error error => cases hok

end Limits

namespace Call

/-- A sound call that began as the frame says. -/
def Fills (frame : Frame) (call : Call) : Prop := call.frame = frame ∧ call.Sound

/-- A sound call that may be made in one that began as the frame says. -/
def Under (outer : Frame) (call : Call) : Prop := call.frame.Below outer ∧ call.Sound

theorem Fills.under {frame outer : Frame} {call : Call} (hbelow : frame.Below outer)
    (h : call.Fills frame) : call.Under outer := by
  obtain ⟨rfl, hsound⟩ := h
  exact ⟨hbelow, hsound⟩

end Call

namespace Records

variable {α : Type} {x : Reading α} {t : Recording α} {w : Window}
  {post : Except SyntaxError α → Window → Prop} {routine : Routine}

/-- A call is sound if the calls made in it are, and if it leaves what a call may leave. -/
theorem call (hbegins : routine.Begins w)
    (hpost : ∀ result later, post result later →
      Leaves w.remaining result later ∧ (result.isOk → routine.Settled later))
    (h : Records (Call.Under ⟨routine, w⟩) x t post w) :
    Records (Call.Fills ⟨routine, w⟩) x (Recording.call routine t) post w := by
  obtain ⟨hends, inner, hinner, hrecorded⟩ := h
  have hbody := hrecorded []
  rw [List.nil_append] at hbody
  refine ⟨hends, ?_⟩
  cases hread : x.outcome w with
  | none =>
      rw [hread] at hbody
      refine ⟨[], nofun, fun earlier => ?_⟩
      rw [Recording.outcome_call, hbody]
      rfl
  | some found =>
      obtain ⟨hleaves, hsettled⟩ := hpost _ _ (hends found hread)
      have hsound : Call.Sound ⟨⟨routine, w⟩, found.1.isOk, found.2, inner⟩ :=
        .intro ⟨hbegins, hleaves.fewer, hleaves.noMore, hsettled⟩
          (fun call hcall => (hinner call hcall).1) (fun call hcall => (hinner call hcall).2)
      rw [hread] at hbody
      refine ⟨[⟨⟨routine, w⟩, found.1.isOk, found.2, inner⟩], ?_, fun earlier => ?_⟩
      · intro call hcall
        rw [List.mem_singleton.mp hcall]
        exact ⟨rfl, hsound⟩
      · rw [Recording.outcome_call, hbody]
        rfl

/-- What is asked of every call is enough where nothing more is asked of this one. -/
theorem call_leaves (hbegins : routine.Begins w) (hsettled : ∀ later, routine.Settled later)
    (h : Records (Call.Under ⟨routine, w⟩) x t (Leaves w.remaining) w) :
    Records (Call.Fills ⟨routine, w⟩) x (Recording.call routine t) (Leaves w.remaining) w :=
  call hbegins (fun _ later hleaves => ⟨hleaves, fun _ => hsettled later⟩) h

/-- A reading that may leave as much as the one it goes on from. -/
theorem bind_leaves {β : Type} {made : Call → Prop} {limit : Nat} {f : α → Reading β}
    {g : α → Recording β} (h : Records made x t (Leaves limit) w)
    (hf : ∀ a later, later.remaining < limit → Records made (f a) (g a) (Leaves limit) later) :
    Records made (x >>= f) (t >>= g) (Leaves limit) w :=
  h.bind hf fun _ _ herror => herror

/-- A call that is made where another one has begun. -/
theorem here {called : Routine} (h : Records (Call.Fills ⟨called, w⟩) x t post w)
    (hrank : called.rank < routine.rank) :
    Records (Call.Under ⟨routine, w⟩) x t post w :=
  h.mono (fun _ hfills => hfills.under (.of_rank hrank)) fun _ _ hpost => hpost

/-- A call that is made after another one has taken a token. -/
theorem later {outer : Frame} (h : Records (Call.Fills ⟨routine, w⟩) x t (Leaves w.remaining) w)
    (hw : w.remaining < outer.window.remaining) :
    Records (Call.Under outer) x t (Leaves outer.window.remaining) w :=
  h.mono (fun _ hfills => hfills.under (.of_lt hw))
    fun _ _ hleaves => hleaves.mono (Nat.le_of_lt hw)

end Records

end LineBasic
