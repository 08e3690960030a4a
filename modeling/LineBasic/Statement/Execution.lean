import LineBasic.Console
import LineBasic.Expr.Evaluation
import LineBasic.Statement

/-!
# Executing a statement

A statement is executed in two stages. First the conditions in front of it are decided: that
selects one *action*, and has no effect. Then the action is performed. A conditional statement
whose condition is zero selects the action that does nothing, and a conditional jump selects the
same action as the jump alone.

A printing statement evaluates everything it prints before it writes, so it writes all or, if an
expression fails, nothing. A reading statement asks first: the prompt has been written and a line
taken when the text turns out not to be a number.

## Main definitions

* `Statement.select`: the action of a statement in a store;
* `Action.perform`: what an action does to the state, and where execution goes on;
* `Statement.execute`: both in turn.
-/

namespace LineBasic

/-- What is left of a statement when its conditions are decided. -/
inductive Action where
  | pass
  | assign (name : String) (value : Expr)
  | print (items : List Expr)
  | input (name : String)
  | jump (target : LineNumber)
  | stop
  deriving DecidableEq

/-- Where execution goes on after a statement. -/
inductive Flow where
  | onward
  | jump (target : LineNumber)
  | halt
  deriving DecidableEq, Repr

/-- What a statement acts on. -/
structure State where
  store : Store
  console : Console

/-- The number a value is, if it may be a condition; any number but zero holds. -/
def Value.holds : Value → Except RuntimeError Bool
  | .number x => .ok (x != 0)
  | .text _ => .error .conditionKind

namespace Statement

/-- Decides the conditions of a statement. -/
def select (store : Store) : Statement → Except RuntimeError Action
  | .comment => .ok .pass
  | .assign name value => .ok (.assign name value)
  | .print items => .ok (.print items)
  | .input name => .ok (.input name)
  | .ifJump condition target => do
    let value ← condition.eval store
    let holds ← value.holds
    if holds then .ok (.jump target) else .ok .pass
  | .ifThen condition body => do
    let value ← condition.eval store
    let holds ← value.holds
    if holds then body.select store else .ok .pass
  | .jump target => .ok (.jump target)
  | .stop => .ok .stop

end Statement

/-- The value that a line of input gives a variable. A text variable is empty once the input has
ended; a numeric one has to be given a number. -/
def Value.ofInput (name : String) (line : Option String) : Except RuntimeError Value :=
  match Kind.ofName name, line with
  | .text, line => .ok (.text (line.getD ""))
  | .number, none => .error .endOfInput
  | .number, some line =>
    match Binary64.Datum.read? (Text.trim line.toList) with
    | some datum => .ok (.number datum.toFloat)
    | none => .error (.inputFormat line)

namespace State

/-- Sets a variable, and goes on. -/
def assign (s : State) (name : String) (value : Value) : Except RuntimeError Flow × State :=
  match s.store.set name value with
  | .ok store => (.ok .onward, { s with store })
  | .error error => (.error error, s)

end State

namespace Action

/-- Performs an action. -/
def perform (s : State) : Action → Except RuntimeError Flow × State
  | .pass => (.ok .onward, s)
  | .assign name value =>
    match value.eval s.store with
    | .ok value => s.assign name value
    | .error error => (.error error, s)
  | .print items =>
    match items.mapM (Expr.eval s.store) with
    | .ok values =>
      match s.console.write (" ".intercalate (values.map Value.print) ++ "\n") with
      | (.ok (), console) => (.ok .onward, { s with console })
      | (.error fault, console) => (.error (.channel fault), { s with console })
    | .error error => (.error error, s)
  | .input name =>
    match s.console.ask with
    | (.ok line, console) =>
      match Value.ofInput name line with
      | .ok value => { s with console : State }.assign name value
      | .error error => (.error error, { s with console })
    | (.error fault, console) => (.error (.channel fault), { s with console })
  | .jump target => (.ok (.jump target), s)
  | .stop => (.ok .halt, s)

end Action

/-- Executes a statement. -/
def Statement.execute (statement : Statement) (s : State) : Except RuntimeError Flow × State :=
  match statement.select s.store with
  | .ok action => action.perform s
  | .error error => (.error error, s)

end LineBasic
