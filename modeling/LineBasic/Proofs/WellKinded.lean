import LineBasic.Proofs.Faults

/-!
# Programs without errors about kinds

A program is well kinded if each of its statements is, and that is found from the text alone: every
value has the kind of the variable it is assigned to, everything printed has a kind, and every
condition is a number. Such a program may divide by zero, be given a bad line of input or find a
channel closed, but it never comes upon a value of the wrong kind. It does not matter what its
variables held before, how often its lines are executed or in which order. Likewise a program that
stores every line it names never looks for another.

Both follow from the cause that every error of a run has.

## Main definitions

* `Program.WellKinded`: every statement of the program is well kinded;
* `Program.Closed`: every line that a statement names is stored.

## Main results

* `Statement.isOccasional_of_execute`: the errors that a well-kinded statement can report;
* `Program.run_wellKinded`: the errors that a run of a program can have.
-/

namespace LineBasic

/-- The errors of an expression with a kind are occasional. -/
theorem Expr.lands_eval_occasional {e : Expr} {kind : Kind} (h : e.kind? = some kind)
    (store : Store) :
    Lands (fun error => error.isOccasional) (fun value => value.kind = kind) (e.eval store) := by
  refine (lands_eval h store).mono ?_ fun _ hkind => hkind
  rintro error rfl
  rfl

namespace Statement

/-- A statement whose values have the kinds that it needs. -/
def WellKinded : Statement → Prop
  | .comment | .input _ | .jump _ | .stop => True
  | .assign name value => value.kind? = some (Kind.ofName name)
  | .print items => ∀ e ∈ items, e.kind?.isSome
  | .ifJump condition _ => condition.kind? = some .number
  | .ifThen condition body => condition.kind? = some .number ∧ body.WellKinded

/-- Whether a statement is well kinded shows in its text. -/
instance decidableWellKinded : (statement : Statement) → Decidable statement.WellKinded
  | .comment | .input _ | .jump _ | .stop => .isTrue trivial
  | .assign name value => inferInstanceAs (Decidable (value.kind? = some (Kind.ofName name)))
  | .print items => inferInstanceAs (Decidable (∀ e ∈ items, e.kind?.isSome))
  | .ifJump condition _ => inferInstanceAs (Decidable (condition.kind? = some .number))
  | .ifThen condition body =>
    have := decidableWellKinded body
    inferInstanceAs (Decidable (condition.kind? = some .number ∧ body.WellKinded))

/-- The conditions of a well-kinded statement, and the action that they select, have occasional
errors only. -/
theorem WellKinded.lands_select {statement : Statement} (h : statement.WellKinded)
    (store : Store) :
    Lands (fun error => error.isOccasional)
      (fun a => a.FailsOnly (fun error => error.isOccasional) store) (statement.select store) := by
  have hcondition {condition : Expr} (hnumber : condition.kind? = some .number) :=
    lands_condition (Expr.lands_eval_occasional hnumber store) fun value hkind htext => by
      rw [hkind] at htext
      cases htext
  induction statement with
  | comment => trivial
  | assign name value =>
      refine (Expr.lands_eval_occasional h store).imp fun result hkind => ?_
      refine (store.lands_set name result).mono ?_ fun _ _ => trivial
      rintro error ⟨hne, -⟩
      exact absurd hkind hne
  | print items =>
      intro e hmem
      obtain ⟨kind, hkind⟩ := Option.isSome_iff_exists.mp (h e hmem)
      have hlands := Expr.lands_eval_occasional hkind store
      exact hlands.imp fun _ _ => trivial
  | input name => trivial
  | ifJump condition target =>
      refine lands_guarded (hcondition h) ?_ trivial
      exact trivial
  | ifThen condition body ih =>
      exact lands_guarded (hcondition h.1) (ih h.2) trivial
  | jump target => trivial
  | stop => trivial

/-- The errors of a well-kinded statement are occasional. -/
theorem WellKinded.isOccasional_of_execute {statement : Statement} (h : statement.WellKinded)
    {s after : State} {error : RuntimeError}
    (hexecute : statement.execute s = (.error error, after)) : error.isOccasional := by
  have hlands := lands_execute (h.lands_select s.store) fun _ herror => herror
  rwa [hexecute] at hlands

end Statement

namespace Program

/-- Every statement of the program is well kinded. -/
def WellKinded (p : Program) : Prop := ∀ line ∈ p.lines, line.statement.WellKinded

/-- Every line that a statement names is stored. -/
def Closed (p : Program) : Prop :=
  ∀ line ∈ p.lines, ∀ target ∈ line.statement.targets, target ∈ p.numbers

/-- In a well-kinded program a line causes occasional errors, or names a line that is not stored. -/
theorem WellKinded.cause {p : Program} (h : p.WellKinded) {number : LineNumber}
    {error : RuntimeError} (hexplains : p.Explains number error) :
    error.isOccasional ∨ ∃ target, error = .undefinedLine target := by
  cases hexplains with
  | faulted hline hexecute => exact .inl ((h _ hline).isOccasional_of_execute hexecute)
  | undefined hline htarget hmissing => exact .inr ⟨_, rfl⟩

/-- A line that a run does not find is named by the line it was at. -/
theorem names_of_run {p : Program} {budget : Budget} {state : State} {number target : LineNumber}
    (h : (p.run budget state).1 = .error (.runtime number (.undefinedLine target))) :
    target ∉ p.numbers ∧ ∃ line, p.get? number = some line ∧ target ∈ line.statement.targets := by
  rcases explains_of_run h with hlimit | hexplains
  · cases hlimit
  · cases hexplains with
    | faulted hline hexecute => cases Statement.isOfStatement_of_execute hexecute
    | undefined hline htarget hmissing => exact ⟨hmissing, _, get?_of_mem hline, htarget⟩

/-- **Errors that a program's text rules out**: whatever the variables hold, whatever the input, the
sink and the budget, a run of a well-kinded program has no error about kinds. If every line that the
program names is stored, none is ever undefined; and in any program an undefined line is one that is
not stored and that the line at fault names. -/
theorem run_wellKinded (p : Program) (budget : Budget) (state : State) :
    (p.WellKinded → ∀ number error,
        (p.run budget state).1 = .error (.runtime number error) → ¬error.isKindFault) ∧
      (p.Closed → ∀ number target,
        (p.run budget state).1 ≠ .error (.runtime number (.undefinedLine target))) ∧
      ∀ number target,
        (p.run budget state).1 = .error (.runtime number (.undefinedLine target)) →
          target ∉ p.numbers ∧
            ∃ line, p.get? number = some line ∧ target ∈ line.statement.targets := by
  refine ⟨fun h number error hrun => ?_, fun h number target hrun => ?_,
    fun number target hrun => names_of_run hrun⟩
  · rcases explains_of_run hrun with rfl | hexplains
    · simp [RuntimeError.isKindFault]
    · rcases h.cause hexplains with hoccasional | ⟨target, rfl⟩
      · exact RuntimeError.not_isKindFault_of_isOccasional hoccasional
      · simp [RuntimeError.isKindFault]
  · obtain ⟨hmissing, line, hget, htarget⟩ := names_of_run hrun
    exact hmissing (h line (List.mem_of_find?_eq_some hget) target htarget)

/-- A loop that asks for a number and for a name. -/
def asking : Program :=
  ((empty.insert ⟨10, "IF \"A\" <> \"\" THEN INPUT AGE",
      .ifThen (.binary (.text "A") .notEqual (.text "")) (.input "AGE")⟩).insert
    ⟨20, "LET NAME$ = \"B\"", .assign "NAME$" (.text "B")⟩).insert
      ⟨30, "IF NAME$ = \"B\" THEN 10",
        .ifJump (.binary (.variable "NAME$") .equal (.text "B")) 10⟩

/-- A line that jumps to a line that is not stored. -/
def astray : Program := empty.insert ⟨10, "GOTO 20", .jump 20⟩

/-- The loop is well kinded and closed, so its error at the end of the input is not one about kinds
and no line of it is undefined. The line that goes astray names what it does not find. -/
theorem run_wellKinded_asking :
    asking.WellKinded ∧ asking.Closed ∧
      (asking.run ⟨9, 0⟩ ⟨.empty, .ofInput []⟩).1 = .error (.runtime 10 .endOfInput) ∧
      ¬RuntimeError.endOfInput.isKindFault ∧
      (asking.run ⟨9, 0⟩ ⟨.empty, .ofInput []⟩).1 ≠ .error (.runtime 30 (.undefinedLine 10)) ∧
      (astray.run ⟨9, 0⟩ ⟨.empty, .ofInput []⟩).1 = .error (.runtime 10 (.undefinedLine 20)) ∧
      20 ∉ astray.numbers ∧
        ∃ line, astray.get? 10 = some line ∧ 20 ∈ line.statement.targets := by
  have hkinded : asking.WellKinded := by
    show ∀ line ∈ asking.lines, line.statement.WellKinded
    decide
  have hclosed : asking.Closed := by
    show ∀ line ∈ asking.lines, ∀ target ∈ line.statement.targets, target ∈ asking.numbers
    decide
  have hasking : (asking.run ⟨9, 0⟩ ⟨.empty, .ofInput []⟩).1 =
      .error (.runtime 10 .endOfInput) := rfl
  have hastray : (astray.run ⟨9, 0⟩ ⟨.empty, .ofInput []⟩).1 =
      .error (.runtime 10 (.undefinedLine 20)) := rfl
  obtain ⟨hkinds, hdefined, -⟩ := run_wellKinded asking ⟨9, 0⟩ ⟨.empty, .ofInput []⟩
  obtain ⟨-, -, hnames⟩ := run_wellKinded astray ⟨9, 0⟩ ⟨.empty, .ofInput []⟩
  exact ⟨hkinded, hclosed, hasking, hkinds hkinded 10 _ hasking, hdefined hclosed 30 10, hastray,
    hnames 10 20 hastray⟩

end Program

end LineBasic
