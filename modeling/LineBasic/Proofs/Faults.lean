import LineBasic.Proofs.Kinds
import LineBasic.Proofs.Program
import LineBasic.Proofs.Run

/-!
# Where the errors of a run come from

The errors that a statement can report are of two sorts: errors about kinds, which the text of the
statement gives rise to, and occasional ones, which depend on the values of the variables, on the
input and on the channels. A jump to a line that is not stored is no error of the statement: it is
found when the run looks for the line. So an error of a run has one of three causes: the limit is
reached, the statement of a stored line reports it, or the statement of a stored line names a line
that is not stored.

The invariant of a run is that its lines are an end of the program's, and that its error, if it has
failed, has a cause (`Run.Explained`).

## Main definitions

* `RuntimeError.isKindFault`, `RuntimeError.isOccasional`: the two sorts of errors;
* `Statement.targets`: the lines that a statement may jump to;
* `Program.Explains`: the errors that have a cause in a program.

## Main results

* `Statement.lands_execute`: the errors of a statement, from those of its parts;
* `Program.explains_of_run`: an error of a run has a cause.
-/

namespace LineBasic

namespace RuntimeError

/-- An error about a value of the wrong kind. -/
def isKindFault : RuntimeError → Bool
  | .variableKind _ _ | .operandKind _ | .comparisonKinds | .conditionKind => true
  | _ => false

/-- An error that depends on values, on the input or on a channel. -/
def isOccasional : RuntimeError → Bool
  | .divisionByZero | .inputFormat _ | .endOfInput | .channel _ => true
  | _ => false

/-- An error that a statement can report. -/
def isOfStatement (error : RuntimeError) : Bool := error.isKindFault || error.isOccasional

theorem isOfStatement_of_isOccasional {error : RuntimeError} (h : error.isOccasional) :
    error.isOfStatement := by
  rw [isOfStatement, h, Bool.or_true]

theorem not_isKindFault_of_isOccasional {error : RuntimeError} (h : error.isOccasional) :
    ¬error.isKindFault := by
  cases error <;> simp [isOccasional, isKindFault] at h ⊢

end RuntimeError

/-! ## The parts of a statement -/

theorem Sign.lands_apply_any (sign : Sign) (value : Value) :
    Lands (fun error => error.isOfStatement) (fun _ => True) (sign.apply value) := by
  cases value with
  | number x => cases sign <;> trivial
  | text content => cases sign <;> exact rfl

theorem Operator.lands_apply_any (op : Operator) (a b : Value) :
    Lands (fun error => error.isOfStatement) (fun _ => True) (op.apply a b) := by
  cases a with
  | number x =>
      cases b with
      | number y =>
          refine (op.lands_applyNumbers x y).mono ?_ fun _ _ => trivial
          rintro error rfl
          rfl
      | text content => cases op <;> exact rfl
  | text content =>
      cases b with
      | number y => cases op <;> exact rfl
      | text other => cases op <;> trivial

/-- The value of any expression, or an error of its statement. -/
theorem Expr.lands_eval_any (e : Expr) (store : Store) :
    Lands (fun error => error.isOfStatement) (fun _ => True) (e.eval store) := by
  induction e with
  | number value => trivial
  | text content => trivial
  | «variable» name => trivial
  | sign s operand ih => exact ih.bind fun value _ => s.lands_apply_any value
  | binary left op right ihleft ihright =>
      exact ihleft.bind fun a _ => ihright.bind fun b _ => op.lands_apply_any a b

theorem Value.lands_holds (value : Value) :
    Lands (fun error => value.kind = .text ∧ error = .conditionKind) (fun _ => True)
      value.holds := by
  cases value with
  | number x => trivial
  | text content => exact ⟨rfl, rfl⟩

/-! ## Actions -/

/-- The expressions of an action, and the variable it sets to one of them, have errors of a class
only. -/
def Action.FailsOnly (P : RuntimeError → Prop) (store : Store) : Action → Prop
  | .assign name value =>
    Lands P (fun value => Lands P (fun _ => True) (store.set name value)) (value.eval store)
  | .print items => ∀ e ∈ items, Lands P (fun _ => True) (e.eval store)
  | .pass | .input _ | .jump _ | .stop => True

/-- Setting a variable fails if the store refuses it, and goes on otherwise. -/
theorem State.lands_assign {P : RuntimeError → Prop} {s : State} {name : String} {value : Value}
    (h : Lands P (fun _ => True) (s.store.set name value)) :
    Lands P (· = .onward) (s.assign name value).1 := by
  unfold assign
  cases hset : s.store.set name value with
  | ok store => exact rfl
  | error error => rwa [hset] at h

/-- An action fails as its expressions do, or occasionally; and only a jump jumps. -/
theorem Action.lands_perform {P : RuntimeError → Prop} {a : Action} {s : State}
    (h : a.FailsOnly P s.store)
    (hoccasional : ∀ error : RuntimeError, error.isOccasional → P error) :
    Lands P (fun flow => ∀ target, flow = .jump target → a = .jump target) (a.perform s).1 := by
  have honward {result : Except RuntimeError Flow} (hresult : Lands P (· = .onward) result) :
      Lands P (fun flow => ∀ target, flow = .jump target → a = .jump target) result := by
    refine hresult.imp ?_
    rintro flow rfl target hjump
    cases hjump
  cases a with
  | pass => exact honward rfl
  | assign name value =>
      apply honward
      simp only [FailsOnly] at h
      simp only [perform]
      cases heval : value.eval s.store with
      | ok value =>
          rw [heval] at h
          exact State.lands_assign h
      | error error => rwa [heval] at h
  | print items =>
      apply honward
      have hvalues := Lands.mapM h
      simp only [perform]
      cases heval : items.mapM (Expr.eval s.store) with
      | ok values =>
          simp only
          generalize s.console.write _ = outcome
          obtain ⟨result, console⟩ := outcome
          cases result with
          | ok _ => exact rfl
          | error fault => exact hoccasional _ rfl
      | error error => rwa [heval] at hvalues
  | input name =>
      apply honward
      simp only [perform]
      generalize s.console.ask = outcome
      obtain ⟨result, console⟩ := outcome
      cases result with
      | ok line =>
          have hread := Value.lands_ofInput name line
          cases hvalue : Value.ofInput name line with
          | ok value =>
              rw [hvalue] at hread
              -- What was read has the variable's kind, so the store takes it.
              have hset := s.store.lands_set name value
              simp only [hvalue]
              refine State.lands_assign (hset.mono ?_ fun _ _ => trivial)
              rintro error ⟨hkind, -⟩
              exact absurd hread hkind
          | error error =>
              rw [hvalue] at hread
              simp only [hvalue]
              rcases hread with rfl | ⟨text, rfl⟩
              · exact hoccasional _ rfl
              · exact hoccasional _ rfl
      | error fault => exact hoccasional _ rfl
  | jump target =>
      intro other hjump
      injection hjump with hjump
      rw [hjump]
  | stop =>
      intro target hjump
      cases hjump

/-! ## Statements -/

namespace Statement

/-- The lines that a statement may jump to. -/
def targets : Statement → List LineNumber
  | .jump target | .ifJump _ target => [target]
  | .ifThen _ body => body.targets
  | _ => []

/-- A condition is decided if it is a number, and any other is an error about kinds. -/
theorem lands_condition {P : RuntimeError → Prop} {Q : Value → Prop} {condition : Expr}
    {store : Store} (h : Lands P Q (condition.eval store))
    (htext : ∀ value, Q value → value.kind = .text → P .conditionKind) :
    Lands P (fun value => Lands P (fun _ => True) value.holds) (condition.eval store) := by
  refine h.imp fun value hvalue => ?_
  refine value.lands_holds.mono ?_ fun _ _ => trivial
  rintro error ⟨hkind, rfl⟩
  exact htext value hvalue hkind

/-- A condition is decided, and then what it guards is selected, or else nothing. -/
theorem lands_guarded {P : RuntimeError → Prop} {Q : Action → Prop} {condition : Expr}
    {store : Store} {guarded : Except RuntimeError Action}
    (hcondition : Lands P (fun value => Lands P (fun _ => True) value.holds) (condition.eval store))
    (hguarded : Lands P Q guarded) (hpass : Q .pass) :
    Lands P Q (condition.eval store >>= fun value => value.holds >>= fun holds =>
      if holds then guarded else .ok .pass) := by
  refine hcondition.bind fun value hvalue => hvalue.bind fun holds _ => ?_
  cases holds with
  | true => exact hguarded
  | false => exact hpass

/-- Of any statement an action is selected, which jumps to no line that the statement does not name,
or a condition has an error of a statement. -/
theorem lands_select_any (statement : Statement) (store : Store) :
    Lands (fun error => error.isOfStatement)
      (fun a => a.FailsOnly (fun error => error.isOfStatement) store ∧
        ∀ target, a = .jump target → target ∈ statement.targets)
      (statement.select store) := by
  have hno {a : Action} {targets : List LineNumber} (h : ∀ target, a ≠ .jump target) :
      ∀ target, a = .jump target → target ∈ targets := fun target hjump => absurd hjump (h target)
  have hcondition (condition : Expr) :=
    lands_condition (condition.lands_eval_any store) fun _ _ _ => rfl
  have hjump (target other : LineNumber) (heq : Action.jump target = .jump other) :
      other ∈ [target] := by
    injection heq with heq
    exact heq ▸ List.mem_singleton_self target
  induction statement with
  | comment => exact ⟨trivial, hno (by simp)⟩
  | assign name value =>
      refine ⟨(value.lands_eval_any store).imp fun result _ => ?_, hno (by simp)⟩
      refine (store.lands_set name result).mono ?_ fun _ _ => trivial
      rintro error ⟨-, rfl⟩
      rfl
  | print items => exact ⟨fun e _ => e.lands_eval_any store, hno (by simp)⟩
  | input name => exact ⟨trivial, hno (by simp)⟩
  | ifJump condition target =>
      refine lands_guarded (hcondition condition) ?_ ⟨trivial, hno (by simp)⟩
      exact ⟨trivial, hjump target⟩
  | ifThen condition body ih =>
      exact lands_guarded (hcondition condition) ih ⟨trivial, hno (by simp)⟩
  | jump target => exact ⟨trivial, hjump target⟩
  | stop => exact ⟨trivial, hno (by simp)⟩

/-- A statement fails as its conditions and its action do. -/
theorem lands_execute {P : RuntimeError → Prop} {statement : Statement} {s : State}
    (h : Lands P (fun a => a.FailsOnly P s.store) (statement.select s.store))
    (hoccasional : ∀ error : RuntimeError, error.isOccasional → P error) :
    Lands P (fun _ => True) (statement.execute s).1 := by
  unfold execute
  cases hselect : statement.select s.store with
  | ok a =>
      rw [hselect] at h
      exact (a.lands_perform h hoccasional).imp fun _ _ => trivial
  | error error => rwa [hselect] at h

/-- The errors of any statement. -/
theorem isOfStatement_of_execute {statement : Statement} {s after : State} {error : RuntimeError}
    (h : statement.execute s = (.error error, after)) : error.isOfStatement := by
  have hselect := (statement.lands_select_any s.store).imp
    fun _ haction => haction.1
  have hlands := lands_execute hselect fun _ => RuntimeError.isOfStatement_of_isOccasional
  rwa [h] at hlands

/-- A statement jumps if that is what its conditions select. -/
theorem select_of_jump {statement : Statement} {s after : State} {target : LineNumber}
    (h : statement.execute s = (.ok (.jump target), after)) :
    statement.select s.store = .ok (.jump target) := by
  have hselected := statement.lands_select_any s.store
  unfold execute at h
  cases hselect : statement.select s.store with
  | ok a =>
      rw [hselect] at h hselected
      have hperformed := a.lands_perform hselected.1
        fun _ => RuntimeError.isOfStatement_of_isOccasional
      simp only at h
      rw [h] at hperformed
      rw [hperformed target rfl]
  | error error =>
      rw [hselect] at h
      cases h

/-- A statement jumps to a line that it names. -/
theorem mem_targets_of_execute {statement : Statement} {s after : State} {target : LineNumber}
    (h : statement.execute s = (.ok (.jump target), after)) : target ∈ statement.targets := by
  have hselected := statement.lands_select_any s.store
  rw [select_of_jump h] at hselected
  exact hselected.2 target rfl

end Statement

/-! ## Runs -/

/-- The errors that have a cause in a line of a program. -/
inductive Program.Explains (p : Program) : LineNumber → RuntimeError → Prop where
  | faulted {line : ProgramLine} {s after : State} {error : RuntimeError} :
      line ∈ p.lines → line.statement.execute s = (.error error, after) →
        Explains p line.number error
  | undefined {line : ProgramLine} {target : LineNumber} :
      line ∈ p.lines → target ∈ line.statement.targets → target ∉ p.numbers →
        Explains p line.number (.undefinedLine target)

namespace Run

variable {p : Program}

/-- The lines of a run are an end of the program's, and its error has a cause. -/
def Explained (p : Program) : Run → Prop
  | .active line later _ => (line :: later) <:+ p.lines
  | .ended _ => True
  | .failed number error _ => p.Explains number error

theorem explained_ofLines {lines : List ProgramLine} (h : lines <:+ p.lines) (state : State) :
    (ofLines lines state).Explained p := by
  cases lines with
  | nil => trivial
  | cons line later => exact h

theorem Explained.step {run : Run} (h : run.Explained p) : (run.step p).Explained p := by
  cases run with
  | active line later state =>
      have hline : line ∈ p.lines := List.IsSuffix.subset h (by simp)
      have hlater : later <:+ p.lines := (List.suffix_cons line later).trans h
      have hnext := next_step p line later state
      generalize (active line later state).step p = next at hnext
      cases hnext with
      | onward _ => exact explained_ofLines hlater _
      | halted _ => trivial
      | jumped _ hfrom => exact Program.suffix_of_from? hfrom
      | undefined hexecute hfrom =>
          exact .undefined hline (Statement.mem_targets_of_execute hexecute)
            (Program.from?_eq_none_iff.mp hfrom)
      | faulted hexecute => exact .faulted hline hexecute
  | ended state => trivial
  | failed number error state => exact h

theorem Explained.advance {run : Run} (h : run.Explained p) (n : Nat) :
    (run.advance p n).Explained p := by
  induction n generalizing run with
  | zero => exact h
  | succ n ih =>
      rw [advance_succ]
      exact ih h.step

end Run

/-- **An error of a run has a cause**: the limit, or a stored line. -/
theorem Program.explains_of_run {p : Program} {budget : Budget} {state : State}
    {number : LineNumber} {error : RuntimeError}
    (h : (p.run budget state).1 = .error (.runtime number error)) :
    error = .stepLimit budget.limit ∨ p.Explains number error := by
  have hexplained := (Run.explained_ofLines (List.suffix_refl p.lines) state).advance budget.steps
  rcases Run.of_conclude h with ⟨line, later, last, -, -, hlimit⟩ | ⟨last, hfailed⟩
  · exact .inl hlimit
  · rw [hfailed] at hexplained
    exact .inr hexplained

end LineBasic
