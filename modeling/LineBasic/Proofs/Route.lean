import LineBasic.Proofs.Program
import LineBasic.Proofs.Run

/-!
# Finding the lines of a running program

A run carries the lines that it has ahead, so it never looks for the next line. There are two other
ways to run a program. By *line number*: the next line is the stored one with the least number above
the current number, and a jump goes to the line of its target. By *position*: the numbers are listed
once, in order, together with the position of each of them; the next line is that of the next
position, the line is looked up by the number that stands there, and a jump goes to the position of
its target.

A *route* is what these two differ in. Whichever route is taken, and however far a run is followed,
the outcome and the state are the same, and every number on the way has a line.

The invariant is that a place stands for an end of the program's lines, those ahead. One step keeps
it (`Tracks.step`), and so does a run (`Tracks.advance`).

## Main definitions

* `Program.byNumber`, `Program.byPosition`: the two routes;
* `Route.run`: a whole run along a route.

## Main results

* `Program.run_eq_routes`: a program's run is its run along either route.
-/

namespace LineBasic

/-! ## Routes -/

/-- How a run finds its lines: a place for every line and for the end. -/
structure Route (α : Type) where
  start : α
  /-- The number at a place, unless the place is the end. -/
  number? : α → Option LineNumber
  /-- Where a run goes on after the line at a place. -/
  next : α → α
  /-- Where a jump goes. -/
  find? : LineNumber → Option α

/-- By line number, the end having none. -/
def Program.byNumber (p : Program) : Route (Option LineNumber) where
  start := p.numbers.min?
  number? := id
  next place := place.bind fun number => (p.numbers.filter (number < ·)).min?
  find? target := if target ∈ p.numbers then some (some target) else none

/-- The numbers of a program with their positions. -/
def Program.positions (p : Program) : List (LineNumber × Nat) := p.numbers.zipIdx

/-- By position among the numbers of the program, the end being their count or beyond. -/
def Program.byPosition (p : Program) : Route Nat where
  start := 0
  number? position := p.numbers[position]?
  next position := position + 1
  find? target := (p.positions.find? (·.1 = target)).map Prod.snd

/-- A run along a route between two steps. -/
inductive RouteRun (α : Type) where
  /-- About to execute the line of a number. -/
  | active (place : α) (number : LineNumber) (state : State)
  | ended (state : State)
  | failed (line : LineNumber) (error : RuntimeError) (state : State)
  /-- Stopped at a number without a line. -/
  | lost (number : LineNumber) (state : State)

namespace Route

variable {α : Type}

/-- A run that has come to a place. -/
def enter (r : Route α) (place : α) (state : State) : RouteRun α :=
  match r.number? place with
  | some number => .active place number state
  | none => .ended state

/-- Executes one line, unless the run is over. -/
def step (r : Route α) (p : Program) : RouteRun α → RouteRun α
  | .active place number state =>
    match p.get? number with
    | some line =>
      match line.statement.execute state with
      | (.ok .onward, state) => r.enter (r.next place) state
      | (.ok .halt, state) => .ended state
      | (.ok (.jump target), state) =>
        match r.find? target with
        | some place => r.enter place state
        | none => .failed number (.undefinedLine target) state
      | (.error error, state) => .failed number error state
    | none => .lost number state
  | finished => finished

/-- Executes up to `n` lines. -/
def advance (r : Route α) (p : Program) : Nat → RouteRun α → RouteRun α
  | 0, run => run
  | n + 1, run => r.advance p n (r.step p run)

/-- What comes of a run, a number without a line being passed over as an end. -/
def conclude (limit : Nat) : RouteRun α → Except Error Unit × State
  | .active _ number state =>
    if limit = 0 then (.error (.unfinished number), state)
    else (.error (.runtime number (.stepLimit limit)), state)
  | .ended state | .lost _ state =>
    match state.console.flush with
    | .ok () => (.ok (), state)
    | .error fault => (.error (.channel fault), state)
  | .failed line error state => (.error (.runtime line error), state)

/-- Runs a program along a route. -/
def run (r : Route α) (p : Program) (budget : Budget) (state : State) :
    Except Error Unit × State :=
  conclude budget.limit (r.advance p budget.steps (r.enter r.start state))

/-! ## Routes that follow the lines -/

/-- Every place that is reached stands for the lines ahead. -/
structure Follows (r : Route α) (p : Program) (ahead : α → List ProgramLine → Prop) : Prop where
  start : ahead r.start p.lines
  number? : ∀ place lines, ahead place lines →
    r.number? place = lines.head?.map ProgramLine.number
  next : ∀ place line later, ahead place (line :: later) → ahead (r.next place) later
  find? : ∀ line later, (line :: later) <:+ p.lines →
    ∃ place, r.find? line.number = some place ∧ ahead place (line :: later)
  find?_none : ∀ target, target ∉ p.numbers → r.find? target = none

/-- A run and a run along a route have the same ahead. -/
inductive Tracks (p : Program) (ahead : α → List ProgramLine → Prop) : Run → RouteRun α → Prop where
  | active {line : ProgramLine} {later : List ProgramLine} {place : α} {state : State} :
      (line :: later) <:+ p.lines → ahead place (line :: later) →
        Tracks p ahead (.active line later state) (.active place line.number state)
  | ended {state : State} : Tracks p ahead (.ended state) (.ended state)
  | failed {line : LineNumber} {error : RuntimeError} {state : State} :
      Tracks p ahead (.failed line error state) (.failed line error state)

variable {r : Route α} {p : Program} {ahead : α → List ProgramLine → Prop}

/-- Coming to a place is going on with the lines ahead. -/
theorem Tracks.enter (hr : r.Follows p ahead) {place : α} {lines : List ProgramLine}
    (hlines : lines <:+ p.lines) (hplace : ahead place lines) (state : State) :
    Tracks p ahead (Run.ofLines lines state) (r.enter place state) := by
  have hnumber := hr.number? place lines hplace
  unfold Route.enter
  rw [hnumber]
  cases lines with
  | nil => exact .ended
  | cons line later => exact .active hlines hplace

/-- One step keeps the lines ahead the same. -/
theorem Tracks.step {run : Run} {other : RouteRun α} (h : Tracks p ahead run other)
    (hr : r.Follows p ahead) : Tracks p ahead (run.step p) (r.step p other) := by
  cases h with
  | @active line later place state hlines hplace =>
      simp only [Run.step, Route.step, Program.get?_of_suffix hlines]
      generalize line.statement.execute state = outcome
      obtain ⟨result, state⟩ := outcome
      cases result with
      | error error => exact .failed
      | ok flow =>
          cases flow with
          | onward =>
              have hlater : later <:+ p.lines := (List.suffix_cons line later).trans hlines
              exact .enter hr hlater (hr.next place line later hplace) state
          | halt => exact .ended
          | jump target =>
              by_cases htarget : target ∈ p.numbers
              · obtain ⟨line, later, hsuffix, rfl⟩ := Program.exists_suffix htarget
                obtain ⟨place, hfind, hahead⟩ := hr.find? line later hsuffix
                simp only [Program.from?_of_suffix hsuffix, hfind]
                exact .enter hr hsuffix hahead state
              · simp only [Program.from?_of_not_mem htarget, hr.find?_none target htarget]
                exact .failed
  | ended => exact .ended
  | failed => exact .failed

/-- A run keeps the lines ahead the same, however far it is followed. -/
theorem Tracks.advance {run : Run} {other : RouteRun α} (h : Tracks p ahead run other)
    (hr : r.Follows p ahead) (n : Nat) :
    Tracks p ahead (run.advance p n) (r.advance p n other) := by
  induction n generalizing run other with
  | zero => exact h
  | succ n ih =>
      rw [Run.advance_succ]
      exact ih (h.step hr)

/-- Runs with the same ahead come to the same. -/
theorem Tracks.conclude {run : Run} {other : RouteRun α} (h : Tracks p ahead run other)
    (limit : Nat) : Route.conclude limit other = run.conclude limit := by
  cases h with
  | active => rfl
  | ended => rfl
  | failed => rfl

theorem Tracks.not_lost {run : Run} {other : RouteRun α} (h : Tracks p ahead run other)
    (number : LineNumber) (state : State) : other ≠ .lost number state := by
  intro hlost
  subst hlost
  cases h

/-- A run from the first line on tracks a run along a route that follows the lines. -/
theorem Follows.tracks (hr : r.Follows p ahead) (n : Nat) (state : State) :
    Tracks p ahead ((Run.ofLines p.lines state).advance p n)
      (r.advance p n (r.enter r.start state)) :=
  (Tracks.enter hr (List.suffix_refl p.lines) hr.start state).advance hr n

theorem Follows.run_eq (hr : r.Follows p ahead) (budget : Budget) (state : State) :
    r.run p budget state = p.run budget state :=
  (hr.tracks budget.steps state).conclude budget.limit

theorem Follows.not_lost (hr : r.Follows p ahead) (n : Nat) (state : State) (number : LineNumber)
    (last : State) : r.advance p n (r.enter r.start state) ≠ .lost number last :=
  (hr.tracks n state).not_lost number last

end Route

/-! ## The two routes -/

namespace Program

/-- A line number stands for the lines from it on. -/
theorem byNumber_follows (p : Program) :
    p.byNumber.Follows p fun place lines =>
      lines <:+ p.lines ∧ place = lines.head?.map ProgramLine.number where
  start := ⟨List.suffix_refl p.lines, p.min?_numbers⟩
  number? place lines h := h.2
  next place line later h := by
    obtain ⟨hlines, rfl⟩ := h
    exact ⟨(List.suffix_cons line later).trans hlines, min?_above_of_suffix hlines⟩
  find? line later hlines :=
    ⟨some line.number, if_pos (mem_numbers_of_suffix hlines), hlines, rfl⟩
  find?_none target htarget := if_neg htarget

/-- The number at the position that is found is the number that was looked for. -/
theorem getElem?_of_position {p : Program} {target : LineNumber} {position : Nat}
    (h : p.byPosition.find? target = some position) : p.numbers[position]? = some target := by
  obtain ⟨pair, hpair, rfl⟩ := Option.map_eq_some_iff.mp h
  have hnumber : pair.1 = target := by simpa using List.find?_some hpair
  have hmem := List.mem_zipIdx_iff_getElem?.mp (List.mem_of_find?_eq_some hpair)
  rw [hmem, hnumber]

/-- The position of a number and the number at a position are inverse to each other. -/
theorem position_eq_some_iff {p : Program} {target : LineNumber} {position : Nat} :
    p.byPosition.find? target = some position ↔ p.numbers[position]? = some target := by
  refine ⟨getElem?_of_position, fun h => ?_⟩
  have hmem : (target, position) ∈ p.positions := List.mem_zipIdx_iff_getElem?.mpr h
  cases hfind : p.byPosition.find? target with
  | none =>
      have hnone := List.find?_eq_none.mp (Option.map_eq_none_iff.mp hfind) _ hmem
      simp at hnone
  | some found =>
      have hfound := getElem?_of_position hfind
      have hdistinct : p.numbers.Nodup := p.numbers_pairwise.imp Nat.ne_of_lt
      have hposition : position < p.numbers.length := (List.getElem?_eq_some_iff.mp h).1
      have hsame : p.numbers[position]? = p.numbers[found]? := h.trans hfound.symm
      rw [(List.getElem?_inj hposition hdistinct).mp hsame]

/-- A position stands for the lines from it on. -/
theorem byPosition_follows (p : Program) :
    p.byPosition.Follows p fun position lines => p.lines.drop position = lines where
  start := List.drop_zero
  number? position lines h := by
    subst h
    show (p.lines.map ProgramLine.number)[position]? = _
    rw [List.getElem?_map, List.head?_drop]
  next position line later h := by
    show p.lines.drop (position + 1) = later
    rw [← List.tail_drop, h]
    rfl
  find? line later hlines := by
    obtain ⟨position, hposition⟩ := List.getElem?_of_mem (mem_numbers_of_suffix hlines)
    refine ⟨position, position_eq_some_iff.mpr hposition, ?_⟩
    rw [numbers, List.getElem?_map] at hposition
    obtain ⟨found, hfound, hnumber⟩ := Option.map_eq_some_iff.mp hposition
    obtain ⟨hlt, rfl⟩ := List.getElem?_eq_some_iff.mp hfound
    have hdrop : p.lines.drop position = p.lines[position] :: p.lines.drop (position + 1) :=
      List.drop_eq_getElem_cons hlt
    have hsuffix : (p.lines[position] :: p.lines.drop (position + 1)) <:+ p.lines :=
      hdrop ▸ List.drop_suffix position p.lines
    rw [hdrop]
    exact suffix_unique hsuffix hlines hnumber
  find?_none target htarget := by
    cases hfind : p.byPosition.find? target with
    | none => rfl
    | some position =>
        exact absurd (List.mem_of_getElem? (position_eq_some_iff.mp hfind)) htarget

/-- **Three ways to run**: whatever the budget and the state, a program's run comes to the same
outcome and the same state as its run by line number and its run by position, and neither ever
comes to a number without a line. -/
theorem run_eq_routes (p : Program) (budget : Budget) (state : State) :
    p.run budget state = p.byNumber.run p budget state ∧
      p.byPosition.run p budget state = p.byNumber.run p budget state ∧
      ∀ n number last,
        p.byPosition.advance p n (p.byPosition.enter p.byPosition.start state) ≠
            .lost number last ∧
          p.byNumber.advance p n (p.byNumber.enter p.byNumber.start state) ≠
            .lost number last := by
  have hnumber := p.byNumber_follows
  have hposition := p.byPosition_follows
  refine ⟨(hnumber.run_eq budget state).symm, ?_, fun n number last => ⟨?_, ?_⟩⟩
  · rw [hnumber.run_eq, hposition.run_eq]
  · exact hposition.not_lost n state number last
  · exact hnumber.not_lost n state number last

end Program

end LineBasic
