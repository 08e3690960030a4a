import LineBasic.Proofs.Budget
import LineBasic.Proofs.Renumbering

/-!
# A program with a comment more

A line that holds a comment does nothing and goes on. So a program that gets such a line, with a
number that it has no line for and does not speak of, does what it did before; it only takes longer.
It comes to the comment when it would come to the line behind it by falling through, or when it
begins there, and never by a jump. That is once at the beginning and once after each step at most,
and so a run of `n` steps becomes one of `2 * n + 1` steps or fewer.

Wherever a run of the program is, the changed program has a run at the same line, with the comment
among the lines ahead if that is its place (`Run.widen`). A step of the one is a step of the other,
and perhaps the step of the comment.

## Main definitions

* `Program.behind`: the lines behind a line, with one more among them;
* `Run.widen`: a run, in the program with a line more.

## Main results

* `Run.step_widen`, `Run.advance_widen`: one step, and any number of steps;
* `Program.FinishesWithin.insert`: how long the changed program takes;
* `Program.run_insert_comment`: the run of a program with a comment more.
-/

namespace LineBasic

/-! ## Lines ahead -/

namespace Program

/-- The lines behind a line, with one more in its place if it belongs there. -/
def behind (extra line : ProgramLine) (later : List ProgramLine) : List ProgramLine :=
  if extra.number < line.number then later else insertLine extra later

/-- A line with the lines behind it is an end of the lines with one more. -/
theorem behind_suffix {extra line : ProgramLine} {earlier later : List ProgramLine}
    (h : (earlier ++ line :: later).Pairwise (·.number < ·.number))
    (hne : line.number ≠ extra.number) :
    (line :: behind extra line later) <:+ insertLine extra (earlier ++ line :: later) := by
  unfold behind
  induction earlier with
  | nil =>
      rw [List.nil_append, insertLine]
      by_cases hbefore : extra.number < line.number
      · rw [if_pos hbefore, if_pos hbefore]
        exact List.suffix_cons extra _
      · refine ⟨[], ?_⟩
        rw [if_neg hbefore, if_neg hbefore, if_neg (Ne.symm hne), List.nil_append]
  | cons first earlier ih =>
      rw [List.cons_append] at h ⊢
      obtain ⟨hfirst, hearlier⟩ := List.pairwise_cons.mp h
      have hline : first.number < line.number := hfirst line (by simp)
      have hend : (line :: later) <:+ earlier ++ line :: later := List.suffix_append earlier _
      rw [insertLine]
      by_cases hbefore : extra.number < first.number
      · rw [if_pos (Nat.lt_trans hbefore hline), if_pos hbefore]
        exact (hend.trans (List.suffix_cons first _)).trans (List.suffix_cons extra _)
      · rw [if_neg hbefore]
        by_cases hsame : extra.number = first.number
        · rw [if_pos (hsame ▸ hline), if_pos hsame]
          exact hend.trans (List.suffix_cons extra _)
        · rw [if_neg hsame]
          exact (ih hearlier).trans (List.suffix_cons first _)

variable {p : Program} {extra line : ProgramLine}

/-- A program that does not speak of a number has no line of it. -/
theorem number_ne_of_not_mem_mentions (hnew : extra.number ∉ p.mentions) (hline : line ∈ p.lines) :
    line.number ≠ extra.number := by
  intro hsame
  exact hnew (mem_mentions_of_number (mem_numbers.mpr ⟨line, hline, hsame⟩))

/-- The other numbers are stored as before. -/
theorem mem_numbers_insert {number : LineNumber} (hne : number ≠ extra.number) :
    number ∈ (p.insert extra).numbers ↔ number ∈ p.numbers := by
  rw [mem_numbers_iff, mem_numbers_iff, get?_insert, if_neg (Ne.symm hne)]

/-- The other numbers are found where they were, with one line more behind them if it belongs
there. -/
theorem from?_insert {target : LineNumber} (hne : target ≠ extra.number) :
    (p.insert extra).from? target =
      (p.from? target).map fun found => (found.1, behind extra found.1 found.2) := by
  by_cases hmem : target ∈ p.numbers
  · obtain ⟨line, later, hsuffix, rfl⟩ := exists_suffix hmem
    obtain ⟨earlier, hlines⟩ := hsuffix
    have hend : (line :: behind extra line later) <:+ (p.insert extra).lines := by
      have hascending := p.ascending
      rw [← hlines] at hascending
      show _ <:+ insertLine extra p.lines
      rw [← hlines]
      exact behind_suffix hascending hne
    rw [from?_of_suffix ⟨earlier, hlines⟩, from?_of_suffix hend]
    rfl
  · rw [from?_of_not_mem hmem, from?_of_not_mem (mt (mem_numbers_insert hne).mp hmem)]
    rfl

end Program

/-! ## Runs -/

namespace Run

/-- A run at a line, in the program with one line more. -/
def widen (extra : ProgramLine) : Run → Run
  | .active line later state => .active line (Program.behind extra line later) state
  | finished => finished

theorem outcome?_widen (extra : ProgramLine) (run : Run) :
    (run.widen extra).outcome? = run.outcome? := by
  cases run <;> rfl

variable {p q : Program} {extra : ProgramLine} {lines : List ProgramLine} {run : Run}

/-- In front of greater numbers there is nothing to insert. -/
theorem widen_ofLines (h : ∀ line ∈ lines, extra.number < line.number) (state : State) :
    (ofLines lines state).widen extra = ofLines lines state := by
  cases lines with
  | nil => rfl
  | cons line later =>
      have hline := h line List.mem_cons_self
      show active line (Program.behind extra line later) state = active line later state
      rw [Program.behind, if_pos hline]

/-- At the front of some lines with a comment more, the comment is in front and is passed, or it is
behind the first line. -/
theorem advance_ofLines_insertLine (hcomment : extra.statement = .comment)
    (hlines : lines.Pairwise (·.number < ·.number))
    (hnew : ∀ line ∈ lines, line.number ≠ extra.number) (state : State) :
    ∃ k ≤ 1, (ofLines (Program.insertLine extra lines) state).advance q k =
      (ofLines lines state).widen extra := by
  -- A comment goes on with the lines behind it, in the same state.
  have hpassed (ahead : List ProgramLine) :
      (active extra ahead state).advance q 1 = ofLines ahead state := by
    show (active extra ahead state).step q = _
    simp only [step, hcomment]
    rfl
  cases lines with
  | nil => exact ⟨1, Nat.le_refl 1, hpassed []⟩
  | cons first later =>
      rw [Program.insertLine]
      by_cases hbefore : extra.number < first.number
      · rw [if_pos hbefore]
        have hahead : ∀ line ∈ first :: later, extra.number < line.number := by
          refine List.forall_mem_cons.mpr ⟨hbefore, fun line hline => ?_⟩
          exact Nat.lt_trans hbefore ((List.pairwise_cons.mp hlines).1 line hline)
        refine ⟨1, Nat.le_refl 1, ?_⟩
        rw [widen_ofLines hahead]
        exact hpassed (first :: later)
      · have hne := Ne.symm (hnew first List.mem_cons_self)
        rw [if_neg hbefore, if_neg hne]
        refine ⟨0, Nat.zero_le 1, ?_⟩
        show active first _ state = active first (Program.behind extra first later) state
        rw [Program.behind, if_neg hbefore]

/-- **A step of a run** is a step of the program with a comment more, and perhaps the step of the
comment. -/
theorem step_widen (hcomment : extra.statement = .comment) (hnew : extra.number ∉ p.mentions)
    (hrun : run.Explained p) :
    ∃ k ≤ 1, (((run.widen extra).step (p.insert extra)).advance (p.insert extra) k) =
      (run.step p).widen extra := by
  cases run with
  | active line later state =>
      have hline : line ∈ p.lines := List.IsSuffix.subset hrun (by simp)
      have hlines := Program.pairwise_of_suffix hrun
      obtain ⟨hlater, hascending⟩ := List.pairwise_cons.mp hlines
      have hjumped {target : LineNumber} {after : State}
          (hexecute : line.statement.execute state = (.ok (.jump target), after)) :
          (p.insert extra).from? target =
            (p.from? target).map fun found => (found.1, Program.behind extra found.1 found.2) := by
        have htarget := Statement.mem_targets_of_execute hexecute
        refine Program.from?_insert fun hsame => hnew ?_
        exact hsame ▸ Program.mem_mentions_of_target hline htarget
      have hnext := next_step p line later state
      generalize (active line later state).step p = next at hnext
      cases hnext with
      | @onward after hexecute =>
          simp only [widen, step, hexecute]
          unfold Program.behind
          by_cases hbefore : extra.number < line.number
          · have hahead : ∀ other ∈ later, extra.number < other.number := fun other hother =>
              Nat.lt_trans hbefore (hlater other hother)
            rw [if_pos hbefore]
            exact ⟨0, Nat.zero_le 1, (widen_ofLines hahead after).symm⟩
          · rw [if_neg hbefore]
            refine advance_ofLines_insertLine hcomment hascending (fun other hother => ?_) after
            have hstored := List.IsSuffix.subset hrun (List.mem_cons_of_mem line hother)
            exact Program.number_ne_of_not_mem_mentions hnew hstored
      | halted hexecute =>
          simp only [widen, step, hexecute]
          exact ⟨0, Nat.zero_le 1, rfl⟩
      | jumped hexecute hfrom =>
          simp only [widen, step, hexecute, hjumped hexecute, hfrom]
          exact ⟨0, Nat.zero_le 1, rfl⟩
      | undefined hexecute hfrom =>
          simp only [widen, step, hexecute, hjumped hexecute, hfrom]
          exact ⟨0, Nat.zero_le 1, rfl⟩
      | faulted hexecute =>
          simp only [widen, step, hexecute]
          exact ⟨0, Nat.zero_le 1, rfl⟩
  | ended state => exact ⟨0, Nat.zero_le 1, rfl⟩
  | failed line error state => exact ⟨0, Nat.zero_le 1, rfl⟩

/-- A number of steps becomes at most twice that number. -/
theorem advance_widen (hcomment : extra.statement = .comment) (hnew : extra.number ∉ p.mentions)
    (hrun : run.Explained p) (n : Nat) :
    ∃ k ≤ 2 * n, (run.widen extra).advance (p.insert extra) k = (run.advance p n).widen extra := by
  induction n generalizing run with
  | zero => exact ⟨0, Nat.zero_le _, rfl⟩
  | succ n ih =>
      obtain ⟨passed, hpassed, hstep⟩ := step_widen hcomment hnew hrun
      obtain ⟨k, hk, hrest⟩ := ih hrun.step
      refine ⟨(passed + k) + 1, by omega, ?_⟩
      rw [advance_succ, advance_add, hstep, hrest, advance_succ]

end Run

namespace Program

variable {p : Program} {extra : ProgramLine} {state : State} {outcome : Except Error Unit × State}

/-- **How long it takes**: what is over after `n` steps is over after `2 * n + 1` steps with a
comment more, and comes to the same. -/
theorem FinishesWithin.insert {n : Nat} (h : p.FinishesWithin n state outcome)
    (hcomment : extra.statement = .comment) (hnew : extra.number ∉ p.mentions) :
    (p.insert extra).FinishesWithin (2 * n + 1) state outcome := by
  have hover := finishesWithin_iff.mp h
  have hexplained := Run.explained_ofLines (List.suffix_refl p.lines) state
  obtain ⟨passed, hpassed, hstart⟩ := Run.advance_ofLines_insertLine (q := p.insert extra)
    hcomment p.ascending (fun _ => number_ne_of_not_mem_mentions hnew) state
  obtain ⟨k, hk, hrun⟩ := Run.advance_widen hcomment hnew hexplained n
  have hcourse : (p.insert extra).course state (passed + k) = (p.course state n).widen extra := by
    rw [course_eq_advance, course_eq_advance, Run.advance_add, ← hrun, ← hstart]
    rfl
  refine ⟨passed + k, by omega, ?_⟩
  rw [hcourse, Run.outcome?_widen, hover]

/-- **A comment that nobody jumps to does nothing.** Let a program have no line of a number and no
statement, at any depth, that names it. If its run under a limit `m` does not exceed the limit, then
with a comment in a line of that number it comes to the same result, with the same line in an error,
and to the same state: the same variables, the same output and the same input left. So it does under
the limit `2 * m + 1`, under every greater one and without a limit. -/
theorem run_insert_comment (p : Program) {extra : ProgramLine}
    (hcomment : extra.statement = .comment) (hnew : extra.number ∉ p.mentions) {m : Nat}
    (hpositive : 0 < m) (horizon : Nat) (state : State)
    (hquiet : ∀ line, (p.run ⟨m, horizon⟩ state).1 ≠ .error (.runtime line (.stepLimit m))) :
    (∀ limit far, 2 * m + 1 ≤ limit →
        (p.insert extra).run ⟨limit, far⟩ state = p.run ⟨m, horizon⟩ state) ∧
      (p.insert extra).Yields 0 state (p.run ⟨m, horizon⟩ state) ∧
      ∀ far, 2 * m + 1 ≤ far →
        (p.insert extra).run ⟨0, far⟩ state = p.run ⟨m, horizon⟩ state := by
  have hfinishes := (finishesWithin_of_quiet hpositive hquiet).insert hcomment hnew
  refine ⟨fun limit far hlimit => ?_, yields_zero_iff.mpr ⟨_, hfinishes⟩, fun far hfar => ?_⟩
  · exact run_of_finishesWithin hfinishes hlimit (by omega) far
  · rw [run_of_zero, Run.conclude_of_outcome? (finishesWithin_iff.mp (hfinishes.mono hfar))]

/-- A loop that is begun twice, and left by a jump to a line that is not stored. -/
def looping : Program :=
  (((empty.insert ⟨10, "PRINT \"A\"", .print [.text "A"]⟩).insert
    ⟨20, "IF B$ = \"X\" THEN 99", .ifJump (.binary (.variable "B$") .equal (.text "X")) 99⟩).insert
    ⟨30, "B$ = \"X\"", .assign "B$" (.text "X")⟩).insert
    ⟨40, "GOTO 10", .jump 10⟩

/-- The comment stands in the loop and is passed twice. The jump fails where it failed before, and
no limit from thirteen steps on keeps it from that. -/
theorem run_insert_comment_looping :
    15 ∉ looping.mentions ∧
      (looping.run ⟨6, 0⟩ fresh).1 = .error (.runtime 20 (.undefinedLine 99)) ∧
      ∀ limit far, 13 ≤ limit →
        (looping.insert ⟨15, "REM", .comment⟩).run ⟨limit, far⟩ fresh =
          looping.run ⟨6, 0⟩ fresh := by
  have hnew : 15 ∉ looping.mentions := by decide +kernel
  have hresult : (looping.run ⟨6, 0⟩ fresh).1 = .error (.runtime 20 (.undefinedLine 99)) := by
    decide +kernel
  have hquiet : ∀ line, (looping.run ⟨6, 0⟩ fresh).1 ≠ .error (.runtime line (.stepLimit 6)) := by
    intro line
    rw [hresult]
    simp
  obtain ⟨hlimited, -, -⟩ := @run_insert_comment looping ⟨15, "REM", .comment⟩ rfl hnew 6
    (by decide) 0 fresh hquiet
  exact ⟨hnew, hresult, hlimited⟩

end Program

end LineBasic
