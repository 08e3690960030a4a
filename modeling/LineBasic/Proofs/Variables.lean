import LineBasic.Proofs.Faults
import LineBasic.Proofs.Output
import LineBasic.Proofs.Store

/-!
# The variables of a program

A program reads the variables that stand in its expressions, and writes those that it assigns or
asks for. Both lists are found from the text alone, whatever the depth of the conditions, and hold
names in upper case, since letter case does not matter in a store.

Two runs that begin in stores which agree on what the program reads stay alike: they are at the same
line, have done the same to their channels, and their stores still agree there (`Run.Alike`). What a
statement sets, it sets to the same value in both. And a variable that the program does not write
keeps its value in each of them.

## Main definitions

* `Program.reads`, `Program.writes`: the variables of a program;
* `Store.AgreeOn`: stores with the same values of some variables;
* `Run.Alike`: runs that differ in other variables alone.

## Main results

* `Statement.execute_agree`, `Statement.get_execute`: what a statement reads, and what it writes;
* `Program.run_reads_writes`: what a program reads, and what it writes.
-/

namespace LineBasic

/-! ## Stores -/

/-- Stores in which some variables have the same values. -/
def Store.AgreeOn (names : List String) (a b : Store) : Prop :=
  ∀ name ∈ names, a.get name = b.get name

/-- Two stores refuse the same, and setting a variable in both keeps them alike. -/
theorem Store.AgreeOn.set {names : List String} {a b : Store} (h : a.AgreeOn names b)
    (name : String) (value : Value) :
    (∃ error, a.set name value = .error error ∧ b.set name value = .error error) ∨
      ∃ a' b', a.set name value = .ok a' ∧ b.set name value = .ok b' ∧ a'.AgreeOn names b' := by
  by_cases hkind : value.kind = Kind.ofName name
  · obtain ⟨a', ha, -⟩ := a.exists_set hkind
    obtain ⟨b', hb, -⟩ := b.exists_set hkind
    refine .inr ⟨a', b', ha, hb, fun other hother => ?_⟩
    rw [get_set ha, get_set hb, h other hother]
  · exact .inl ⟨_, a.set_of_ne_kind hkind, b.set_of_ne_kind hkind⟩

/-! ## Names in a text -/

/-- The variables of an expression, in upper case. -/
def Expr.reads : Expr → List String
  | .number _ | .text _ => []
  | .variable name => [name.toUpper]
  | .sign _ operand => operand.reads
  | .binary left _ right => left.reads ++ right.reads

namespace Statement

/-- The variables in the expressions of a statement, in upper case. -/
def reads : Statement → List String
  | .assign _ value => value.reads
  | .print items => items.flatMap Expr.reads
  | .ifJump condition _ => condition.reads
  | .ifThen condition body => condition.reads ++ body.reads
  | .comment | .input _ | .jump _ | .stop => []

/-- The variables that a statement assigns or asks for, in upper case. -/
def writes : Statement → List String
  | .assign name _ | .input name => [name.toUpper]
  | .ifThen _ body => body.writes
  | .comment | .print _ | .ifJump _ _ | .jump _ | .stop => []

end Statement

namespace Action

/-- The variables in the expressions of an action. -/
def reads : Action → List String
  | .assign _ value => value.reads
  | .print items => items.flatMap Expr.reads
  | .pass | .input _ | .jump _ | .stop => []

/-- The variables that an action sets. -/
def writes : Action → List String
  | .assign name _ | .input name => [name.toUpper]
  | .pass | .print _ | .jump _ | .stop => []

end Action

namespace Program

/-- The variables in the expressions of a program. -/
def reads (p : Program) : List String := p.lines.flatMap fun line => line.statement.reads

/-- The variables that a program assigns or asks for. -/
def writes (p : Program) : List String := p.lines.flatMap fun line => line.statement.writes

variable {p : Program} {line : ProgramLine}

theorem reads_of_mem (h : line ∈ p.lines) : line.statement.reads ⊆ p.reads := fun _ hname =>
  List.mem_flatMap.mpr ⟨line, h, hname⟩

theorem writes_of_mem (h : line ∈ p.lines) : line.statement.writes ⊆ p.writes := fun _ hname =>
  List.mem_flatMap.mpr ⟨line, h, hname⟩

end Program

/-! ## What is read -/

/-- States with the same channels, in which some variables have the same values. -/
structure State.AgreeOn (names : List String) (s t : State) : Prop where
  console : s.console = t.console
  store : s.store.AgreeOn names t.store

/-- Two outcomes with the same result, in states that agree. -/
structure OutcomesAgree {α : Type} (names : List String) (x y : α × State) : Prop where
  result : x.1 = y.1
  state : x.2.AgreeOn names y.2

section Reading

variable {names : List String} {a b : Store} {s t : State}

/-- The value of an expression depends on its variables alone. -/
theorem Expr.eval_eq_of_agreeOn {e : Expr} (h : a.AgreeOn names b) (he : e.reads ⊆ names) :
    e.eval a = e.eval b := by
  induction e with
  | number value => rfl
  | text content => rfl
  | «variable» name =>
      have hvalue := h name.toUpper (he (List.mem_singleton_self _))
      rw [Store.get_toUpper, Store.get_toUpper] at hvalue
      unfold eval
      rw [hvalue]
  | sign s operand ih =>
      unfold eval
      rw [ih he]
  | binary left op right ihleft ihright =>
      obtain ⟨hleft, hright⟩ := List.append_subset.mp he
      unfold eval
      rw [ihleft hleft, ihright hright]

theorem Expr.mapM_eval_eq_of_agreeOn {items : List Expr} (h : a.AgreeOn names b)
    (hitems : items.flatMap Expr.reads ⊆ names) :
    items.mapM (Expr.eval a) = items.mapM (Expr.eval b) := by
  induction items with
  | nil => rfl
  | cons e later ih =>
      obtain ⟨he, hlater⟩ := List.append_subset.mp hitems
      rw [List.mapM_cons, List.mapM_cons, e.eval_eq_of_agreeOn h he, ih hlater]

/-- So does the action that a statement selects. -/
theorem Statement.select_eq_of_agreeOn {statement : Statement} (h : a.AgreeOn names b)
    (hreads : statement.reads ⊆ names) : statement.select a = statement.select b := by
  induction statement with
  | ifJump condition target =>
      unfold select
      rw [condition.eval_eq_of_agreeOn h hreads]
  | ifThen condition body ih =>
      obtain ⟨hcondition, hbody⟩ := List.append_subset.mp hreads
      unfold select
      rw [condition.eval_eq_of_agreeOn h hcondition, ih hbody]
  | comment => rfl
  | assign name value => rfl
  | print items => rfl
  | input name => rfl
  | jump target => rfl
  | stop => rfl

/-- An action that is selected has no other variables than its statement. -/
theorem Statement.lands_select_names (statement : Statement) (store : Store) :
    Lands (fun _ => True)
      (fun action => action.reads ⊆ statement.reads ∧ action.writes ⊆ statement.writes)
      (statement.select store) := by
  have hcondition (condition : Expr) :=
    (lands_condition (condition.lands_eval_any store) fun _ _ _ => rfl).mono
      (fun _ _ => trivial) fun _ hvalue => hvalue.mono (fun _ _ => trivial) fun _ _ => trivial
  have hpass (reads writes : List String) :
      Action.pass.reads ⊆ reads ∧ Action.pass.writes ⊆ writes :=
    ⟨List.nil_subset reads, List.nil_subset writes⟩
  induction statement with
  | ifJump condition target =>
      refine lands_guarded (hcondition condition) ?_ (hpass _ _)
      exact ⟨List.nil_subset _, List.nil_subset _⟩
  | ifThen condition body ih =>
      refine lands_guarded (hcondition condition) ?_ (hpass _ _)
      refine ih.imp fun action haction => ⟨?_, haction.2⟩
      exact List.Subset.trans haction.1 (List.subset_append_right _ _)
  | comment => exact hpass _ _
  | assign name value => exact ⟨List.Subset.refl _, List.Subset.refl _⟩
  | print items => exact ⟨List.Subset.refl _, List.Subset.refl _⟩
  | input name => exact ⟨List.Subset.refl _, List.Subset.refl _⟩
  | jump target => exact ⟨List.nil_subset _, List.nil_subset _⟩
  | stop => exact ⟨List.nil_subset _, List.nil_subset _⟩

/-- Setting a variable to one value keeps states alike. -/
theorem State.assign_agree (h : s.AgreeOn names t) (name : String) (value : Value) :
    OutcomesAgree names (s.assign name value) (t.assign name value) := by
  unfold assign
  rcases h.store.set name value with ⟨error, hs, ht⟩ | ⟨a', b', hs, ht, hstores⟩
  · rw [hs, ht]
    exact ⟨rfl, h⟩
  · rw [hs, ht]
    exact ⟨rfl, h.console, hstores⟩

/-- An action does the same in states that agree on what it reads. -/
theorem Action.perform_agree {action : Action} (h : s.AgreeOn names t)
    (hreads : action.reads ⊆ names) :
    OutcomesAgree names (action.perform s) (action.perform t) := by
  cases action with
  | pass => exact ⟨rfl, h⟩
  | assign name value =>
      simp only [perform]
      rw [value.eval_eq_of_agreeOn h.store hreads]
      cases value.eval t.store with
      | ok value => exact State.assign_agree h name value
      | error error => exact ⟨rfl, h⟩
  | print items =>
      simp only [perform]
      rw [Expr.mapM_eval_eq_of_agreeOn h.store hreads, h.console]
      cases items.mapM (Expr.eval t.store) with
      | ok values =>
          simp only
          generalize t.console.write _ = outcome
          obtain ⟨result, console⟩ := outcome
          cases result with
          | ok _ => exact ⟨rfl, rfl, h.store⟩
          | error fault => exact ⟨rfl, rfl, h.store⟩
      | error error => exact ⟨rfl, h⟩
  | input name =>
      simp only [perform]
      rw [h.console]
      generalize t.console.ask = outcome
      obtain ⟨result, console⟩ := outcome
      have hasked : State.AgreeOn names { s with console } { t with console } := ⟨rfl, h.store⟩
      cases result with
      | ok line =>
          simp only
          cases Value.ofInput name line with
          | ok value => exact State.assign_agree hasked name value
          | error error => exact ⟨rfl, hasked⟩
      | error fault => exact ⟨rfl, hasked⟩
  | jump target => exact ⟨rfl, h⟩
  | stop => exact ⟨rfl, h⟩

/-- A statement does the same in states that agree on what it reads. -/
theorem Statement.execute_agree {statement : Statement} (h : s.AgreeOn names t)
    (hreads : statement.reads ⊆ names) :
    OutcomesAgree names (statement.execute s) (statement.execute t) := by
  have hnames := statement.lands_select_names t.store
  unfold execute
  rw [select_eq_of_agreeOn h.store hreads]
  cases hselect : statement.select t.store with
  | ok action =>
      rw [hselect] at hnames
      exact Action.perform_agree h (List.Subset.trans hnames.1 hreads)
  | error error => exact ⟨rfl, h⟩

end Reading

/-! ## What is written -/

section Writing

variable {name : String} {s : State}

theorem State.get_assign {target : String} (h : name.toUpper ≠ target.toUpper) (value : Value) :
    (s.assign target value).2.store.get name = s.store.get name := by
  unfold assign
  cases hset : s.store.set target value with
  | ok after => rw [Store.get_set hset, if_neg (Ne.symm h)]
  | error error => rfl

/-- An action keeps the variables that it does not set. -/
theorem Action.get_perform {action : Action} (h : name.toUpper ∉ action.writes) :
    (action.perform s).2.store.get name = s.store.get name := by
  cases action with
  | assign target value =>
      have hne : name.toUpper ≠ target.toUpper := fun heq => h (List.mem_singleton.mpr heq)
      simp only [perform]
      cases value.eval s.store with
      | ok value => exact State.get_assign hne value
      | error error => rfl
  | print items =>
      simp only [perform]
      cases items.mapM (Expr.eval s.store) with
      | ok values =>
          simp only
          generalize s.console.write _ = outcome
          obtain ⟨result, console⟩ := outcome
          cases result <;> rfl
      | error error => rfl
  | input target =>
      have hne : name.toUpper ≠ target.toUpper := fun heq => h (List.mem_singleton.mpr heq)
      simp only [perform]
      generalize s.console.ask = outcome
      obtain ⟨result, console⟩ := outcome
      cases result with
      | ok line =>
          simp only
          cases Value.ofInput target line with
          | ok value => exact State.get_assign hne value
          | error error => rfl
      | error fault => rfl
  | pass => rfl
  | jump target => rfl
  | stop => rfl

/-- A statement keeps the variables that it does not write. -/
theorem Statement.get_execute {statement : Statement} (h : name.toUpper ∉ statement.writes) :
    (statement.execute s).2.store.get name = s.store.get name := by
  have hnames := statement.lands_select_names s.store
  unfold execute
  cases hselect : statement.select s.store with
  | ok action =>
      rw [hselect] at hnames
      exact Action.get_perform fun hmem => h (hnames.2 hmem)
  | error error => rfl

end Writing

/-! ## Runs -/

namespace Run

variable {names : List String} {p : Program} {run other : Run}

/-- Runs at the same line or stopped in the same way, in states that agree. -/
inductive Alike (names : List String) : Run → Run → Prop where
  | active {s t : State} (line : ProgramLine) (later : List ProgramLine) :
      s.AgreeOn names t → Alike names (.active line later s) (.active line later t)
  | ended {s t : State} : s.AgreeOn names t → Alike names (.ended s) (.ended t)
  | failed {s t : State} (line : LineNumber) (error : RuntimeError) :
      s.AgreeOn names t → Alike names (.failed line error s) (.failed line error t)

theorem Alike.ofLines {s t : State} (h : s.AgreeOn names t) (lines : List ProgramLine) :
    Alike names (ofLines lines s) (ofLines lines t) := by
  cases lines with
  | nil => exact .ended h
  | cons line later => exact .active line later h

/-- A step keeps runs alike, if they agree on what the program reads. -/
theorem Alike.step (h : Alike p.reads run other) (hrun : run.Explained p) :
    Alike p.reads (run.step p) (other.step p) := by
  cases h with
  | @active s t line later hstates =>
      have hline : line ∈ p.lines := List.IsSuffix.subset hrun (by simp)
      obtain ⟨hresult, hafter⟩ :=
        Statement.execute_agree hstates (Program.reads_of_mem hline)
      simp only [Run.step]
      generalize line.statement.execute s = x at hresult hafter
      generalize line.statement.execute t = y at hresult hafter
      obtain ⟨result, after⟩ := x
      obtain ⟨result', after'⟩ := y
      cases hresult
      cases result with
      | error error => exact .failed _ _ hafter
      | ok flow =>
          cases flow with
          | onward => exact .ofLines hafter later
          | halt => exact .ended hafter
          | jump target =>
              simp only
              cases p.from? target with
              | some found => exact .active _ _ hafter
              | none => exact .failed _ _ hafter
  | ended hstates => exact .ended hstates
  | failed line error hstates => exact .failed line error hstates

theorem Alike.advance (h : Alike p.reads run other) (hrun : run.Explained p) (n : Nat) :
    Alike p.reads (run.advance p n) (other.advance p n) := by
  induction n generalizing run other with
  | zero => exact h
  | succ n ih =>
      rw [advance_succ, advance_succ]
      exact ih (h.step hrun) hrun.step

theorem Alike.conclude (h : Alike names run other) (limit : Nat) :
    OutcomesAgree names (run.conclude limit) (other.conclude limit) := by
  cases h with
  | active line later hstates =>
      simp only [Run.conclude]
      split
      · exact ⟨rfl, hstates⟩
      · exact ⟨rfl, hstates⟩
  | @ended s t hstates =>
      simp only [Run.conclude]
      rw [hstates.console]
      cases t.console.flush with
      | ok _ => exact ⟨rfl, hstates⟩
      | error fault => exact ⟨rfl, hstates⟩
  | failed line error hstates => exact ⟨rfl, hstates⟩

/-- However far a run is followed, the variables that its program does not write keep their
values. -/
theorem get_advance {name : String} (h : name.toUpper ∉ p.writes) (hrun : run.Explained p)
    (n : Nat) : (run.advance p n).state.store.get name = run.state.store.get name := by
  induction n generalizing run with
  | zero => rfl
  | succ n ih =>
      rw [advance_succ, ih hrun.step]
      cases run with
      | active line later state =>
          have hline : line ∈ p.lines := List.IsSuffix.subset hrun (by simp)
          rw [state_step]
          exact Statement.get_execute fun hmem => h (Program.writes_of_mem hline hmem)
      | ended state => rfl
      | failed line error state => rfl

end Run

namespace Program

/-- **A program reads the variables in its expressions, and writes those that it assigns or asks
for.** From two stores which agree on what it reads, on the same channels and under the same budget,
a program comes to the same result, writes the same and leaves the same input, and the stores agree
in the end as they did at first. A variable that the program does not write, in whatever letter case
it is named, keeps its value. -/
theorem run_reads_writes (p : Program) (budget : Budget) (console : Console) {a b : Store}
    (h : a.AgreeOn p.reads b) :
    (p.run budget ⟨a, console⟩).1 = (p.run budget ⟨b, console⟩).1 ∧
      (p.run budget ⟨a, console⟩).2.console = (p.run budget ⟨b, console⟩).2.console ∧
      (p.run budget ⟨a, console⟩).2.store.AgreeOn p.reads (p.run budget ⟨b, console⟩).2.store ∧
      ∀ name : String, name.toUpper ∉ p.writes →
        (p.run budget ⟨a, console⟩).2.store.get name = a.get name ∧
          (p.run budget ⟨b, console⟩).2.store.get name = b.get name := by
  have hstart (state : State) := Run.explained_ofLines (List.suffix_refl p.lines) state
  have hagree : State.AgreeOn p.reads ⟨a, console⟩ ⟨b, console⟩ := ⟨rfl, h⟩
  have hruns := (Run.Alike.ofLines hagree p.lines).advance (hstart _) budget.steps
  obtain ⟨hresult, hconsole, hstore⟩ := hruns.conclude budget.limit
  have hkept (store : Store) {name : String} (hname : name.toUpper ∉ p.writes) :
      (p.run budget ⟨store, console⟩).2.store.get name = store.get name := by
    rw [state_run, Run.get_advance hname (hstart _), Run.state_ofLines]
  exact ⟨hresult, hconsole, hstore, fun name hname => ⟨hkept a hname, hkept b hname⟩⟩

/-- A line that asks, one that assigns under a condition, and one that writes. -/
def answering : Program :=
  ((empty.insert ⟨10, "INPUT A$", .input "A$"⟩).insert
    ⟨20, "IF A$ = B$ THEN LET C$ = B$",
      .ifThen (.binary (.variable "A$") .equal (.variable "B$"))
        (.assign "C$" (.variable "B$"))⟩).insert
    ⟨30, "PRINT C$", .print [.variable "C$"]⟩

/-- A store in which `B$` is the answer, and `D$` is some text. -/
def holding (text : String) : Store := ⟨.empty, (Table.empty.set "B$" "yes").set "D$" text⟩

/-- The text in `D$` makes no difference to the answering program, and is there in the end. -/
theorem run_reads_writes_answering :
    let run (text : String) :=
      answering.run ⟨9, 0⟩ ⟨holding text, .ofInput (Console.encode "yes\n")⟩
    answering.reads = ["A$", "B$", "B$", "C$"] ∧ answering.writes = ["A$", "C$"] ∧
      (holding "here").AgreeOn answering.reads (holding "there") ∧
      (run "here").1 = (run "there").1 ∧
      (run "here").2.console = (run "there").2.console ∧
      (run "here").2.console.output.toList = Console.encode "? yes\n" ∧
      (run "here").2.store.get "c$" = (run "there").2.store.get "c$" ∧
      (run "there").2.store.get "d$" = .text "there" := by
  have hreads : answering.reads = ["A$", "B$", "B$", "C$"] := by decide +kernel
  have hwrites : answering.writes = ["A$", "C$"] := by decide +kernel
  have hagree : (holding "here").AgreeOn answering.reads (holding "there") := by
    show ∀ name ∈ answering.reads, (holding "here").get name = (holding "there").get name
    decide +kernel
  have hname : "d$".toUpper ∉ answering.writes := by decide +kernel
  obtain ⟨hresult, hconsole, hstore, hkept⟩ :=
    run_reads_writes answering ⟨9, 0⟩ (.ofInput (Console.encode "yes\n")) hagree
  have hsame := hstore "c$".toUpper (by decide +kernel)
  rw [Store.get_toUpper, Store.get_toUpper] at hsame
  refine ⟨hreads, hwrites, hagree, hresult, hconsole, by decide +kernel, hsame, ?_⟩
  rw [(hkept "d$" hname).2]
  decide +kernel

end Program

end LineBasic
