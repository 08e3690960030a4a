import LineBasic.Proofs.Output

/-!
# Runs under a limit

What a program does without a limit is a sequence of runs between steps, its *course*, which may
never come to an end. A limit cuts the course off: a run under a limit comes to what the course
comes to, if it does so within that many steps, and otherwise it stops where the course has got to.

A loop that counts the lines it begins, and gives up at a line whose count exceeds the limit, is the
relation `Run.Comes`. Under every limit but zero it has one outcome, which is the program's run.
Under the limit zero it has one only if the course ends, and no horizon plays a part in it.

Everything rests on a course staying where it is once it is over.

## Main definitions

* `Program.course`: the run after each number of steps;
* `Program.FinishesWithin`: the outcome of a course that is over within a number of steps;
* `Program.Yields`: the outcome of the counting loop.

## Main results

* `Program.yields_iff_run`, `Program.yields_zero_iff`: the counting loop with and without a limit;
* `Program.run_limit_exact`: a run under a limit and the course.
-/

namespace LineBasic

/-- Results can be compared if errors and values can. -/
instance decidableEqResult {ε α : Type} [DecidableEq ε] [DecidableEq α] :
    DecidableEq (Except ε α)
  | .error e, .error e' => decidable_of_iff (e = e') ⟨congrArg _, Except.error.inj⟩
  | .ok a, .ok a' => decidable_of_iff (a = a') ⟨congrArg _, Except.ok.inj⟩
  | .error _, .ok _ => .isFalse (by simp)
  | .ok _, .error _ => .isFalse (by simp)

/-- What comes of a run that is over. -/
def Run.outcome? : Run → Option (Except Error Unit × State)
  | .active _ _ _ => none
  | .ended state => some (state.console.flush.mapError .channel, state)
  | .failed line error state => some (.error (.runtime line error), state)

namespace Run

variable {p : Program} {run : Run} {outcome : Except Error Unit × State}

/-! ## Runs that are over -/

/-- A run that is not over has a line to execute. -/
theorem exists_active (h : run.outcome? = none) :
    ∃ line later state, run = .active line later state := by
  cases run with
  | active line later state => exact ⟨line, later, state, rfl⟩
  | ended state => cases h
  | failed line error state => cases h

theorem step_of_outcome? (h : run.outcome? = some outcome) : run.step p = run := by
  cases run with
  | active line later state => cases h
  | ended state => rfl
  | failed line error state => rfl

/-- A run that is over is followed no further. -/
theorem advance_of_outcome? (h : run.outcome? = some outcome) (n : Nat) :
    run.advance p n = run := by
  induction n with
  | zero => rfl
  | succ n ih => rw [advance_succ, step_of_outcome? h, ih]

/-- No limit matters to a run that is over. -/
theorem conclude_of_outcome? (h : run.outcome? = some outcome) (limit : Nat) :
    run.conclude limit = outcome := by
  cases run with
  | active line later state => cases h
  | ended state =>
      injection h with h
      subst h
      simp only [conclude]
      cases state.console.flush <;> rfl
  | failed line error state =>
      injection h with h

theorem conclude_active {limit : Nat} (h : 0 < limit) (line : ProgramLine)
    (later : List ProgramLine) (state : State) :
    (active line later state).conclude limit =
      (.error (.runtime line.number (.stepLimit limit)), state) :=
  if_neg (Nat.ne_of_gt h)

/-! ## A loop that counts -/

/-- The outcome of a loop that has begun `count` lines, counts each further line before it executes
it, and gives up at a line whose count exceeds the limit. The limit zero is no limit. -/
inductive Comes (p : Program) (limit : Nat) : Nat → Run → Except Error Unit × State → Prop where
  | finished {count : Nat} {run : Run} {outcome : Except Error Unit × State} :
      run.outcome? = some outcome → Comes p limit count run outcome
  | exceeded {count : Nat} {line : ProgramLine} {later : List ProgramLine} {state : State} :
      0 < limit → limit < count + 1 →
        Comes p limit count (.active line later state)
          (.error (.runtime line.number (.stepLimit limit)), state)
  | next {count : Nat} {line : ProgramLine} {later : List ProgramLine} {state : State}
      {outcome : Except Error Unit × State} :
      limit = 0 ∨ count + 1 ≤ limit →
        Comes p limit (count + 1) ((active line later state).step p) outcome →
          Comes p limit count (.active line later state) outcome

/-- What comes of following a run as far as the limit allows is an outcome of the loop. -/
theorem comes_conclude (p : Program) {limit : Nat} (hlimit : 0 < limit) {count left : Nat}
    (hcount : count + left = limit) (run : Run) :
    Comes p limit count run ((run.advance p left).conclude limit) := by
  induction left generalizing count run with
  | zero =>
      cases hover : run.outcome? with
      | some outcome =>
          rw [advance_of_outcome? hover, conclude_of_outcome? hover]
          exact .finished hover
      | none =>
          obtain ⟨line, later, state, rfl⟩ := exists_active hover
          show Comes p limit count _ ((active line later state).conclude limit)
          rw [conclude_active hlimit]
          exact .exceeded hlimit (by omega)
  | succ left ih =>
      cases hover : run.outcome? with
      | some outcome =>
          rw [advance_of_outcome? hover, conclude_of_outcome? hover]
          exact .finished hover
      | none =>
          obtain ⟨line, later, state, rfl⟩ := exists_active hover
          have hnext : count + 1 + left = limit := by omega
          exact .next (.inr (by omega)) (ih hnext _)

/-- The loop has one outcome at most. -/
theorem Comes.unique {limit count : Nat} {other : Except Error Unit × State}
    (h : Comes p limit count run outcome) (h' : Comes p limit count run other) :
    outcome = other := by
  induction h with
  | finished hover =>
      cases h' with
      | finished hover' => exact Option.some.inj (hover.symm.trans hover')
      | exceeded => cases hover
      | next => cases hover
  | exceeded hpositive hexceeded =>
      cases h' with
      | finished hover => cases hover
      | exceeded => rfl
      | next hwithin _ => omega
  | next hwithin _ ih =>
      cases h' with
      | finished hover => cases hover
      | exceeded hpositive hexceeded => omega
      | next _ hcomes => exact ih hcomes

/-- Without a limit the loop comes to what the run comes to, if it is over at some time. -/
theorem comes_zero_iff {count : Nat} :
    Comes p 0 count run outcome ↔ ∃ n, (run.advance p n).outcome? = some outcome := by
  constructor
  · intro h
    induction h with
    | finished hover => exact ⟨0, hover⟩
    | exceeded hpositive => cases hpositive
    | next _ _ ih =>
        obtain ⟨n, hn⟩ := ih
        exact ⟨n + 1, hn⟩
  · rintro ⟨n, hn⟩
    induction n generalizing count run with
    | zero => exact .finished hn
    | succ n ih =>
        cases hover : run.outcome? with
        | some found =>
            rw [advance_of_outcome? hover] at hn
            exact .finished hn
        | none =>
            obtain ⟨line, later, state, rfl⟩ := exists_active hover
            exact .next (.inl rfl) (ih hn)

end Run

namespace Program

/-! ## The course -/

/-- The run of a program without a limit, after each number of steps. -/
def course (p : Program) (state : State) : Nat → Run
  | 0 => Run.ofLines p.lines state
  | n + 1 => (p.course state n).step p

/-- The run without a limit is over after at most `n` steps, with an outcome. -/
def FinishesWithin (p : Program) (n : Nat) (state : State)
    (outcome : Except Error Unit × State) : Prop :=
  ∃ k ≤ n, (p.course state k).outcome? = some outcome

/-- The outcome of the counting loop, from the program's first line. -/
def Yields (p : Program) (limit : Nat) (state : State) (outcome : Except Error Unit × State) :
    Prop :=
  Run.Comes p limit 0 (Run.ofLines p.lines state) outcome

variable {p : Program} {state : State} {outcome : Except Error Unit × State}

/-- The course is what a run is followed through. -/
theorem course_eq_advance (p : Program) (state : State) (n : Nat) :
    p.course state n = (Run.ofLines p.lines state).advance p n := by
  induction n with
  | zero => rfl
  | succ n ih =>
      rw [Run.advance_add, ← ih]
      exact (Run.advance_succ p 0 _).symm

theorem course_add (p : Program) (state : State) (m n : Nat) :
    p.course state (m + n) = (p.course state m).advance p n := by
  rw [course_eq_advance, course_eq_advance, Run.advance_add]

/-- A run comes to what its course has got to at the end of the budget. -/
theorem run_eq_course (p : Program) (budget : Budget) (state : State) :
    p.run budget state = (p.course state budget.steps).conclude budget.limit := by
  rw [course_eq_advance]
  rfl

/-- The sink stays reliable. -/
theorem reliable_course (h : state.console.Reliable) (n : Nat) :
    (p.course state n).state.console.Reliable := by
  have hreaches := Run.reaches_advance p n (Run.ofLines p.lines state)
  rw [Run.state_ofLines] at hreaches
  rw [course_eq_advance]
  exact hreaches.reliable h

/-- A course that is over stays so. -/
theorem finishesWithin_iff {n : Nat} :
    p.FinishesWithin n state outcome ↔ (p.course state n).outcome? = some outcome := by
  constructor
  · rintro ⟨k, hk, hover⟩
    obtain ⟨more, rfl⟩ := Nat.exists_eq_add_of_le hk
    rw [course_add, Run.advance_of_outcome? hover, hover]
  · intro hover
    exact ⟨n, Nat.le_refl n, hover⟩

theorem FinishesWithin.mono {m n : Nat} (h : p.FinishesWithin m state outcome) (hle : m ≤ n) :
    p.FinishesWithin n state outcome := by
  obtain ⟨k, hk, hover⟩ := h
  exact ⟨k, Nat.le_trans hk hle, hover⟩

/-- After any number of steps a course is over, or has a line to execute. -/
theorem finishesWithin_or_active (p : Program) (n : Nat) (state : State) :
    (∃ outcome, p.FinishesWithin n state outcome) ∨
      ∃ line later last, p.course state n = .active line later last := by
  cases hover : (p.course state n).outcome? with
  | some outcome => exact .inl ⟨outcome, finishesWithin_iff.mpr hover⟩
  | none => exact .inr (Run.exists_active hover)

/-- A run under a limit is cut off at the limit, whatever the horizon. -/
theorem run_of_limit {limit : Nat} (h : 0 < limit) (horizon : Nat) (state : State) :
    p.run ⟨limit, horizon⟩ state = (p.course state limit).conclude limit := by
  have hsteps : Budget.steps ⟨limit, horizon⟩ = limit := if_neg (Nat.ne_of_gt h)
  rw [run_eq_course, hsteps]

/-- A run without a limit is followed up to its horizon. -/
theorem run_of_zero (horizon : Nat) (state : State) :
    p.run ⟨0, horizon⟩ state = (p.course state horizon).conclude 0 :=
  run_eq_course p ⟨0, horizon⟩ state

/-- A run comes to what the course comes to within the limit. -/
theorem run_of_finishesWithin {n : Nat} (h : p.FinishesWithin n state outcome) {limit : Nat}
    (hlimit : n ≤ limit) (hpositive : 0 < limit) (horizon : Nat) :
    p.run ⟨limit, horizon⟩ state = outcome := by
  have hfinished := finishesWithin_iff.mp (h.mono hlimit)
  rw [run_of_limit hpositive, Run.conclude_of_outcome? hfinished]

/-- A run that does not report its limit is over within it. -/
theorem finishesWithin_of_quiet {limit horizon : Nat} (hpositive : 0 < limit)
    (hquiet : ∀ line,
      (p.run ⟨limit, horizon⟩ state).1 ≠ .error (.runtime line (.stepLimit limit))) :
    p.FinishesWithin limit state (p.run ⟨limit, horizon⟩ state) := by
  rcases p.finishesWithin_or_active limit state with ⟨outcome, h⟩ | ⟨line, later, last, hactive⟩
  · rwa [run_of_finishesWithin h (Nat.le_refl limit) hpositive horizon]
  · have hexceeded : p.run ⟨limit, horizon⟩ state =
        (.error (.runtime line.number (.stepLimit limit)), last) := by
      rw [run_of_limit hpositive, hactive, Run.conclude_active hpositive]
    exact absurd (congrArg Prod.fst hexceeded) (hquiet line.number)

/-- Under a limit the counting loop always has an outcome, and it is the run's. -/
theorem yields_iff_run {limit : Nat} (h : 0 < limit) (horizon : Nat) :
    p.Yields limit state outcome ↔ p.run ⟨limit, horizon⟩ state = outcome := by
  have hcomes : p.Yields limit state (p.run ⟨limit, horizon⟩ state) := by
    rw [run_of_limit h, course_eq_advance]
    exact Run.comes_conclude p h (Nat.zero_add limit) _
  constructor
  · intro hother
    exact hcomes.unique hother
  · rintro rfl
    exact hcomes

/-- Without a limit the counting loop has an outcome exactly if the course is over at some time. -/
theorem yields_zero_iff : p.Yields 0 state outcome ↔ ∃ n, p.FinishesWithin n state outcome := by
  simp only [finishesWithin_iff, course_eq_advance]
  exact Run.comes_zero_iff

/-- Under a greater limit a run writes what it writes under a smaller one, and perhaps more. -/
theorem output_run_prefix {limit more : Nat} (hpositive : 0 < limit) (h : limit ≤ more)
    (horizon horizon' : Nat) (state : State) :
    (p.run ⟨limit, horizon⟩ state).2.console.output.toList <+:
      (p.run ⟨more, horizon'⟩ state).2.console.output.toList := by
  obtain ⟨further, rfl⟩ := Nat.exists_eq_add_of_le h
  rw [run_of_limit hpositive, run_of_limit (Nat.lt_of_lt_of_le hpositive h), Run.state_conclude,
    Run.state_conclude, course_add]
  exact (Run.precedes_advance p further _).output

/-- **A limit is exact**: a run under a limit `n` always comes to an end. If the run without a limit
is over within `n` steps, both come to the same result and leave the same state. If not, the step
limit is reported at the line of step `n + 1`, and the state is the one after `n` steps. So a run
that does not report its limit is the run without one and under every greater limit, and the output
under a limit is the beginning of the output under every greater one. -/
theorem run_limit_exact (p : Program) (state : State) (n : Nat) (hpositive : 0 < n)
    (horizon : Nat) :
    (∀ outcome, p.Yields n state outcome ↔ p.run ⟨n, horizon⟩ state = outcome) ∧
      (∀ outcome, p.FinishesWithin n state outcome → p.run ⟨n, horizon⟩ state = outcome) ∧
      ((¬∃ outcome, p.FinishesWithin n state outcome) →
        ∃ line later last, p.course state n = .active line later last ∧
          p.run ⟨n, horizon⟩ state =
            (.error (.runtime line.number (.stepLimit n)), last)) ∧
      ((∀ line, (p.run ⟨n, horizon⟩ state).1 ≠ .error (.runtime line (.stepLimit n))) →
        p.Yields 0 state (p.run ⟨n, horizon⟩ state) ∧
          (∀ far, n ≤ far → p.run ⟨0, far⟩ state = p.run ⟨n, horizon⟩ state) ∧
          ∀ m far, n ≤ m → p.run ⟨m, far⟩ state = p.run ⟨n, horizon⟩ state) ∧
      ∀ m far, n ≤ m →
        (p.run ⟨n, horizon⟩ state).2.console.output.toList <+:
          (p.run ⟨m, far⟩ state).2.console.output.toList := by
  have hexceeded {line : ProgramLine} {later : List ProgramLine} {last : State}
      (h : p.course state n = .active line later last) :
      p.run ⟨n, horizon⟩ state = (.error (.runtime line.number (.stepLimit n)), last) := by
    rw [run_of_limit hpositive, h, Run.conclude_active hpositive]
  refine ⟨fun outcome => yields_iff_run hpositive horizon, fun outcome h => ?_, fun hnot => ?_,
    fun hquiet => ?_, fun m far h => output_run_prefix hpositive h horizon far state⟩
  · exact run_of_finishesWithin h (Nat.le_refl n) hpositive horizon
  · rcases p.finishesWithin_or_active n state with hfinishes | ⟨line, later, last, hactive⟩
    · exact absurd hfinishes hnot
    · exact ⟨line, later, last, hactive, hexceeded hactive⟩
  · rcases p.finishesWithin_or_active n state with ⟨outcome, h⟩ | ⟨line, later, last, hactive⟩
    · rw [run_of_finishesWithin h (Nat.le_refl n) hpositive horizon]
      refine ⟨yields_zero_iff.mpr ⟨n, h⟩, fun far hfar => ?_, fun m far hm => ?_⟩
      · rw [run_of_zero, Run.conclude_of_outcome? (finishesWithin_iff.mp (h.mono hfar))]
      · exact run_of_finishesWithin h hm (Nat.lt_of_lt_of_le hpositive hm) far
    · exact absurd (congrArg Prod.fst (hexceeded hactive)) (hquiet line.number)

/-- Two lines that write. -/
def twoWrites : Program :=
  (empty.insert ⟨10, "PRINT \"A\"", .print [.text "A"]⟩).insert
    ⟨20, "PRINT \"B\"", .print [.text "B"]⟩

/-- A state in which nothing has been set, written or read. -/
def fresh : State := ⟨.empty, .ofInput []⟩

/-- Two lines exceed a limit of one step at the second of them, and end on the last step that a
limit of two allows, so that no greater limit matters. -/
theorem run_limit_twoWrites :
    0 < 1 ∧
      twoWrites.run ⟨1, 0⟩ fresh =
        (.error (.runtime 20 (.stepLimit 1)), ⟨.empty, ⟨[], #[65, 10], none, false⟩⟩) ∧
      0 < 2 ∧
      ∀ m far, 2 ≤ m →
        twoWrites.run ⟨m, far⟩ fresh =
          (.ok (), ⟨.empty, ⟨[], #[65, 10, 66, 10], none, false⟩⟩) := by
  have hfirst : twoWrites.course fresh 1 =
      .active ⟨20, "PRINT \"B\"", .print [.text "B"]⟩ []
        ⟨.empty, ⟨[], #[65, 10], none, false⟩⟩ := rfl
  have hsecond : twoWrites.FinishesWithin 2 fresh
      (.ok (), ⟨.empty, ⟨[], #[65, 10, 66, 10], none, false⟩⟩) := finishesWithin_iff.mpr rfl
  refine ⟨by decide, ?_, by decide, fun m far hm => ?_⟩
  · obtain ⟨-, -, hexceeded, -⟩ := run_limit_exact twoWrites fresh 1 (by decide) 0
    have hnot : ¬∃ outcome, twoWrites.FinishesWithin 1 fresh outcome := by
      rintro ⟨outcome, h⟩
      have hover := finishesWithin_iff.mp h
      rw [hfirst] at hover
      cases hover
    obtain ⟨line, later, last, hactive, hrun⟩ := hexceeded hnot
    rw [hfirst] at hactive
    injection hactive with hline hlater hlast
    rw [hrun, ← hline, ← hlast]
  · obtain ⟨-, hfinished, -, hquiet, -⟩ := run_limit_exact twoWrites fresh 2 (by decide) 0
    have hrun := hfinished _ hsecond
    have hsuccess : ∀ line, (twoWrites.run ⟨2, 0⟩ fresh).1 ≠
        .error (.runtime line (.stepLimit 2)) := by
      intro line
      rw [hrun]
      simp
    rw [(hquiet hsuccess).2.2 m far hm, hrun]

end Program

end LineBasic
