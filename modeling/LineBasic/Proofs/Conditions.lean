import LineBasic.Proofs.Budget
import Mathlib.Data.List.Forall2

/-!
# Conditions in front of a statement

What stands behind `THEN` is a statement again, so a conditional statement is a chain: conditions one
behind the other, and a statement without a condition at its end. If that is a jump, it may be
written with `GOTO`, or as its target alone.

A chain is decided from the left. The first condition that is not a number other than zero decides
it, and whatever is behind that condition is not looked at; if there is none, the line does what the
statement at the end does. So the way in which a jump at the end is written does not matter, and two
programs that differ in it alone take the same steps. That they do is a lockstep of two runs
(`Run.InStep`) that have lines ahead which act alike, one by one.

## Main definitions

* `Statement.Chain`: a statement as its conditions and what is behind them;
* `Store.Decides`: what conditions come to, decided from left to right;
* `Statement.Respelled`: statements that differ in the way in which jumps are written;
* `Run.InStep`: runs that have lines ahead which act alike.

## Main results

* `Statement.select_of_chain`: a chain is decided, and then its end is selected;
* `Program.run_of_actsLike`: programs whose lines act alike run the same;
* `Program.conditions_in_turn`: what chains do, and that the spelling of jumps does not matter.
-/

namespace LineBasic

/-! ## Chains -/

namespace Statement

/-- Whether a statement has a condition in front. -/
def isConditional : Statement → Bool
  | .ifJump _ _ | .ifThen _ _ => true
  | _ => false

/-- A statement as its conditions, in order, and the statement behind them that has none. A target
alone stands for the jump to it. -/
inductive Chain : Statement → List Expr → Statement → Prop where
  | bare {body : Statement} : body.isConditional = false → Chain body [] body
  | target (condition : Expr) (target : LineNumber) :
      Chain (.ifJump condition target) [condition] (.jump target)
  | behind {statement body : Statement} {later : List Expr} (condition : Expr) :
      Chain statement later body → Chain (.ifThen condition statement) (condition :: later) body

/-- Every statement is a chain. -/
theorem exists_chain (statement : Statement) :
    ∃ conditions body, statement.Chain conditions body := by
  induction statement with
  | ifJump condition target => exact ⟨_, _, .target condition target⟩
  | ifThen condition body ih =>
      obtain ⟨later, last, hchain⟩ := ih
      exact ⟨_, _, .behind condition hchain⟩
  | _ => exact ⟨_, _, .bare rfl⟩

end Statement

/-- What conditions come to if they are decided from left to right: they hold, one of them is zero,
or there is an error. What is behind the condition that decides may be anything. -/
inductive Store.Decides (store : Store) : List Expr → Except RuntimeError Bool → Prop where
  | hold : Decides store [] (.ok true)
  | next {condition : Expr} {x : Float} {later : List Expr} {verdict : Except RuntimeError Bool} :
      condition.eval store = .ok (.number x) → (x == 0) = false → Decides store later verdict →
        Decides store (condition :: later) verdict
  | zero {condition : Expr} {x : Float} (later : List Expr) :
      condition.eval store = .ok (.number x) → x == 0 →
        Decides store (condition :: later) (.ok false)
  | text {condition : Expr} {content : String} (later : List Expr) :
      condition.eval store = .ok (.text content) →
        Decides store (condition :: later) (.error .conditionKind)
  | fault {condition : Expr} {error : RuntimeError} (later : List Expr) :
      condition.eval store = .error error → Decides store (condition :: later) (.error error)

namespace Store.Decides

variable {store : Store} {conditions : List Expr} {verdict other : Except RuntimeError Bool}

/-- Conditions always come to something. -/
theorem exists_decides (store : Store) (conditions : List Expr) :
    ∃ verdict, store.Decides conditions verdict := by
  induction conditions with
  | nil => exact ⟨_, .hold⟩
  | cons condition later ih =>
      cases heval : condition.eval store with
      | error error => exact ⟨_, .fault later heval⟩
      | ok value =>
          cases value with
          | text content => exact ⟨_, .text later heval⟩
          | number x =>
              cases hzero : x == 0 with
              | true => exact ⟨_, .zero later heval hzero⟩
              | false =>
                  obtain ⟨verdict, hlater⟩ := ih
                  exact ⟨verdict, .next heval hzero hlater⟩

/-- Conditions come to one thing only: the value of the first that is not passed settles it. -/
theorem unique (h : store.Decides conditions verdict) (h' : store.Decides conditions other) :
    verdict = other := by
  induction h with
  | hold =>
      cases h'
      rfl
  | next heval hzero _ ih =>
      cases h' with
      | next _ _ hlater => exact ih hlater
      | zero | text | fault => grind
  | zero _ heval hzero => cases h' <;> grind
  | text _ heval => cases h' <;> grind
  | fault _ heval => cases h' <;> grind

/-- A condition is decided, and then what it guards, which is decided as the conditions behind it. -/
theorem guarded {condition : Expr} {later : List Expr} {inner last : Except RuntimeError Action}
    (h : store.Decides (condition :: later) verdict)
    (hlater : ∀ {verdict}, store.Decides later verdict →
      inner = verdict >>= fun holds => if holds then last else .ok .pass) :
    (condition.eval store >>= fun value => value.holds >>= fun holds =>
        if holds then inner else .ok .pass) =
      verdict >>= fun holds => if holds then last else .ok .pass := by
  cases h with
  | next heval hzero hdecides =>
      rw [heval, ← hlater hdecides]
      simp [Value.holds, bne, hzero, bind, Except.bind]
  | zero _ heval hzero =>
      rw [heval]
      simp [Value.holds, bne, hzero, bind, Except.bind]
  | text _ heval =>
      rw [heval]
      rfl
  | fault _ heval =>
      rw [heval]
      rfl

end Store.Decides

namespace Statement

variable {conditions : List Expr} {body statement other : Statement}

theorem Chain.not_isConditional (h : statement.Chain conditions body) :
    body.isConditional = false := by
  induction h with
  | bare hbody => exact hbody
  | target => rfl
  | behind _ _ ih => exact ih

/-- **A chain is decided**, and if its conditions hold, what its end selects is selected. -/
theorem select_of_chain (h : statement.Chain conditions body) {store : Store}
    {verdict : Except RuntimeError Bool} (hverdict : store.Decides conditions verdict) :
    statement.select store =
      verdict >>= fun holds => if holds then body.select store else .ok .pass := by
  induction h generalizing verdict with
  | bare _ =>
      cases hverdict
      rfl
  | target condition target =>
      refine hverdict.guarded fun hnone => ?_
      cases hnone
      rfl
  | behind condition _ ih => exact hverdict.guarded fun hlater => ih hlater

/-! ## The spelling of jumps -/

/-- The same statement, but for a target that stands alone in the one and behind `GOTO` in the
other, at whatever depth. -/
inductive Respelled : Statement → Statement → Prop where
  | same (statement : Statement) : Respelled statement statement
  | spelled (condition : Expr) (target : LineNumber) :
      Respelled (.ifJump condition target) (.ifThen condition (.jump target))
  | behind {body other : Statement} (condition : Expr) :
      Respelled body other → Respelled (.ifThen condition body) (.ifThen condition other)

/-- Jumps select the same, however they are written. -/
theorem Respelled.select_eq (h : statement.Respelled other) (store : Store) :
    other.select store = statement.select store := by
  induction h with
  | same => rfl
  | spelled condition target => rfl
  | behind condition _ ih => simp only [select, ih]

end Statement

/-! ## Lines that act alike -/

/-- Lines with one number that do the same in every state. -/
structure ProgramLine.ActsLike (line other : ProgramLine) : Prop where
  number : other.number = line.number
  execute : ∀ s, other.statement.execute s = line.statement.execute s

/-- Lines with one number that differ in the way in which jumps are written, and in their sources. -/
structure ProgramLine.Respelled (line other : ProgramLine) : Prop where
  number : other.number = line.number
  statement : line.statement.Respelled other.statement

theorem ProgramLine.Respelled.actsLike {line other : ProgramLine} (h : line.Respelled other) :
    line.ActsLike other where
  number := h.number
  execute s := by
    unfold Statement.execute
    rw [h.statement.select_eq]

open List (Forall₂)

section Lockstep

variable {p q : Program}

/-- A jump finds lines that act alike, or none, in both programs. -/
theorem Program.from?_of_actsLike (h : Forall₂ ProgramLine.ActsLike p.lines q.lines)
    (target : LineNumber) :
    p.from? target = none ∧ q.from? target = none ∨
      ∃ line later other rest, p.from? target = some (line, later) ∧
        q.from? target = some (other, rest) ∧ line.ActsLike other ∧
          Forall₂ ProgramLine.ActsLike later rest := by
  unfold from?
  generalize p.lines = lines at h
  generalize q.lines = others at h
  induction h with
  | nil => exact .inl ⟨rfl, rfl⟩
  | @cons line other later rest hline hlater ih =>
      by_cases hbefore : line.number < target
      · have hother : other.number < target := hline.number ▸ hbefore
        simpa [hbefore, hother] using ih
      · have hother : ¬other.number < target := hline.number ▸ hbefore
        by_cases hsame : line.number = target
        · right
          have hfound : other.number = target := hline.number.trans hsame
          exact ⟨line, later, other, rest, by simp [hsame], by simp [hfound],
            hline, hlater⟩
        · left
          have hmissed : other.number ≠ target := hline.number ▸ hsame
          simp [hbefore, hother, hsame, hmissed]

/-- Two runs in one state, with lines ahead that act alike. -/
inductive Run.InStep : Run → Run → Prop where
  | active {line other : ProgramLine} {later rest : List ProgramLine} (state : State) :
      line.ActsLike other → Forall₂ ProgramLine.ActsLike later rest →
        InStep (.active line later state) (.active other rest state)
  | ended (state : State) : InStep (.ended state) (.ended state)
  | failed (line : LineNumber) (error : RuntimeError) (state : State) :
      InStep (.failed line error state) (.failed line error state)

namespace Run.InStep

variable {run other : Run}

theorem ofLines {lines others : List ProgramLine} (h : Forall₂ ProgramLine.ActsLike lines others)
    (state : State) : InStep (ofLines lines state) (ofLines others state) := by
  cases h with
  | nil => exact .ended state
  | cons hline hlater => exact .active state hline hlater

/-- A step keeps two runs in step. -/
theorem step (h : run.InStep other) (hlines : Forall₂ ProgramLine.ActsLike p.lines q.lines) :
    (run.step p).InStep (other.step q) := by
  cases h with
  | @active line other later rest state hline hlater =>
      simp only [Run.step, hline.execute]
      generalize line.statement.execute state = outcome
      obtain ⟨result, after⟩ := outcome
      cases result with
      | error error =>
          rw [hline.number]
          exact .failed _ _ _
      | ok flow =>
          cases flow with
          | onward => exact .ofLines hlater after
          | halt => exact .ended after
          | jump target =>
              rcases Program.from?_of_actsLike hlines target with
                ⟨hnone, hnone'⟩ | ⟨found, behind, found', behind', hfound, hfound', hsame, hbehind⟩
              · simp only [hnone, hnone', hline.number]
                exact .failed _ _ _
              · simp only [hfound, hfound']
                exact .active after hsame hbehind
  | ended state => exact .ended state
  | failed line error state => exact .failed line error state

/-- Programs whose lines act alike are in step after any number of steps. -/
theorem course (hlines : Forall₂ ProgramLine.ActsLike p.lines q.lines) (state : State) (n : Nat) :
    (p.course state n).InStep (q.course state n) := by
  induction n with
  | zero => exact .ofLines hlines state
  | succ n ih => exact ih.step hlines

theorem state_eq (h : run.InStep other) : other.state = run.state := by
  cases h <;> rfl

/-- Runs in step are over at the same time, with the same outcome. -/
theorem outcome?_eq (h : run.InStep other) : other.outcome? = run.outcome? := by
  cases h <;> rfl

theorem conclude_eq (h : run.InStep other) (limit : Nat) :
    other.conclude limit = run.conclude limit := by
  cases h with
  | active state hline _ => simp only [conclude, hline.number]
  | ended state => rfl
  | failed line error state => rfl

end Run.InStep

/-- **Programs whose lines act alike run the same**, under every budget. -/
theorem Program.run_of_actsLike (h : Forall₂ ProgramLine.ActsLike p.lines q.lines)
    (budget : Budget) (state : State) : q.run budget state = p.run budget state := by
  rw [run_eq_course, run_eq_course, (Run.InStep.course h state _).conclude_eq]

end Lockstep

/-! ## Runs through chains -/

namespace Run

variable {p : Program} {statement body : Statement} {conditions : List Expr} {state : State}
  {later : List ProgramLine}

/-- A condition that cannot be decided ends the run, and nothing has been done. -/
theorem step_of_faulty (h : statement.Chain conditions body) {error : RuntimeError}
    (hverdict : state.store.Decides conditions (.error error)) (number : LineNumber)
    (source : String) :
    (active ⟨number, source, statement⟩ later state).step p = .failed number error state := by
  have hselect := Statement.select_of_chain h hverdict
  simp only [step, Statement.execute, hselect]
  rfl

/-- A condition that is zero passes the line. -/
theorem step_of_zero (h : statement.Chain conditions body)
    (hverdict : state.store.Decides conditions (.ok false)) (number : LineNumber)
    (source : String) :
    (active ⟨number, source, statement⟩ later state).step p = ofLines later state := by
  have hselect := Statement.select_of_chain h hverdict
  simp only [step, Statement.execute, hselect]
  rfl

/-- Conditions that hold might as well not be there. -/
theorem step_of_hold (h : statement.Chain conditions body)
    (hverdict : state.store.Decides conditions (.ok true)) (number : LineNumber)
    (source : String) :
    (active ⟨number, source, statement⟩ later state).step p =
      (active ⟨number, source, body⟩ later state).step p := by
  have hselect : statement.select state.store = body.select state.store :=
    Statement.select_of_chain h hverdict
  simp only [step, Statement.execute, hselect]

end Run

namespace Program

/-- Programs that are the same but for the way in which jumps are written, line by line. -/
def Respelled (p q : Program) : Prop := Forall₂ ProgramLine.Respelled p.lines q.lines

/-- **Conditions are decided in turn, and a jump may be written in two ways.** Every statement is a
chain of conditions with an unconditional statement behind them. Wherever a chain stands and in every
state, its conditions come to one thing, from left to right. An error ends the run at this line, and
nothing has been done; a zero goes on to the next line; and if all conditions hold, the line does
what it would do with the statement at the end alone. Now let two programs be the same but for the
way in which jumps under conditions are written. From every state, both come to one state after each
number of steps, they are over after the same number of steps with the same outcome, and under every
budget they come to the same. -/
theorem conditions_in_turn :
    (∀ statement : Statement, ∃ conditions body,
      statement.Chain conditions body ∧ body.isConditional = false) ∧
    (∀ {statement body : Statement} {conditions : List Expr}, statement.Chain conditions body →
      ∀ (p : Program) (number : LineNumber) (source : String) (later : List ProgramLine)
        (state : State),
      (∃ verdict, state.store.Decides conditions verdict ∧
        ∀ other, state.store.Decides conditions other → other = verdict) ∧
      (∀ error, state.store.Decides conditions (.error error) →
        (Run.active ⟨number, source, statement⟩ later state).step p =
          .failed number error state) ∧
      (state.store.Decides conditions (.ok false) →
        (Run.active ⟨number, source, statement⟩ later state).step p = Run.ofLines later state) ∧
      (state.store.Decides conditions (.ok true) →
        (Run.active ⟨number, source, statement⟩ later state).step p =
          (Run.active ⟨number, source, body⟩ later state).step p)) ∧
    ∀ {p q : Program}, p.Respelled q → ∀ state : State,
      (∀ n, (q.course state n).state = (p.course state n).state ∧
        (q.course state n).outcome? = (p.course state n).outcome?) ∧
      ∀ budget, q.run budget state = p.run budget state := by
  refine ⟨fun statement => ?_, fun h p number source later state => ?_, fun h state => ?_⟩
  · obtain ⟨conditions, body, hchain⟩ := statement.exists_chain
    exact ⟨conditions, body, hchain, hchain.not_isConditional⟩
  · obtain ⟨verdict, hverdict⟩ := Store.Decides.exists_decides state.store _
    refine ⟨⟨verdict, hverdict, fun other hother => hother.unique hverdict⟩, ?_, ?_, ?_⟩
    · exact fun error hfaulty => Run.step_of_faulty h hfaulty number source
    · exact fun hzero => Run.step_of_zero h hzero number source
    · exact fun hhold => Run.step_of_hold h hhold number source
  · have hlines := h.imp fun _ _ hline => hline.actsLike
    refine ⟨fun n => ?_, fun budget => run_of_actsLike hlines budget state⟩
    have hstep := Run.InStep.course hlines state n
    exact ⟨hstep.state_eq, hstep.outcome?_eq⟩

/-- A jump under two conditions to a line that is missing, and a loop that lets the second of them
hold. -/
def lateJump : Program :=
  ((empty.insert ⟨10, "IF 1 THEN IF A THEN 40",
      .ifThen (.number 1) (.ifJump (.variable "A") 40)⟩).insert
    ⟨20, "LET A = A + 1", .assign "A" (.binary (.variable "A") .add (.number 1))⟩).insert
    ⟨30, "IF A THEN 10", .ifJump (.variable "A") 10⟩

/-- The same with `GOTO` in its first line. -/
def lateJumpSpelled : Program :=
  lateJump.insert ⟨10, "IF 1 THEN IF A THEN GOTO 40",
    .ifThen (.number 1) (.ifThen (.variable "A") (.jump 40))⟩

/-- At first the second condition is zero, and the line is passed. Both programs come back to it and
fail there, at the fourth step. -/
theorem conditions_in_turn_late :
    fresh.store.Decides [.number 1, .variable "A"] (.ok false) ∧
      (Run.active ⟨10, "", .ifThen (.number 1) (.ifJump (.variable "A") 40)⟩ [] fresh).step
        lateJump = .ended fresh ∧
      lateJump.Respelled lateJumpSpelled ∧
      lateJumpSpelled.run ⟨9, 0⟩ fresh = lateJump.run ⟨9, 0⟩ fresh ∧
      (lateJump.run ⟨9, 0⟩ fresh).1 = .error (.runtime 10 (.undefinedLine 40)) ∧
      (lateJumpSpelled.course fresh 3).outcome?.isNone ∧
      (lateJumpSpelled.course fresh 4).outcome?.isSome := by
  obtain ⟨-, hchains, hprograms⟩ := conditions_in_turn
  have hchain : Statement.Chain (.ifThen (.number 1) (.ifJump (.variable "A") 40))
      [.number 1, .variable "A"] (.jump 40) := .behind _ (.target _ 40)
  have hone : (Expr.number 1).eval fresh.store = .ok (.number 1) := rfl
  have hzero : (Expr.variable "A").eval fresh.store = .ok (.number 0) := by decide +kernel
  have hdecides : fresh.store.Decides [.number 1, .variable "A"] (.ok false) :=
    .next hone (by decide +kernel) (.zero [] hzero (by decide +kernel))
  have hlines : lateJump.Respelled lateJumpSpelled :=
    .cons ⟨rfl, .behind _ (.spelled _ 40)⟩ (.cons ⟨rfl, .same _⟩ (.cons ⟨rfl, .same _⟩ .nil))
  refine ⟨hdecides, (hchains hchain lateJump 10 "" [] fresh).2.2.1 hdecides, hlines,
    (hprograms hlines fresh).2 ⟨9, 0⟩, by decide +kernel, ?_, ?_⟩
  · rw [((hprograms hlines fresh).1 3).2]
    decide +kernel
  · rw [((hprograms hlines fresh).1 4).2]
    decide +kernel

end Program

end LineBasic
