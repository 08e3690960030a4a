import LineBasic.Proofs.Text.Letters
import LineBasic.Statement.Execution

/-!
# The kinds of values

The kind of a variable is in its name, in any letter case, so a value of a variable's kind can
always be stored in it, and what is read back has that kind. The kind of an expression is found from
its text alone; its value has that kind in every store, unless a division by zero is in the way. An
expression for which no kind is found has no value in any store.

An evaluation *lands* if it gives a value with some property or an error of some class. That is kept
by running one evaluation after another, so facts about whole evaluations are put together from
facts about their parts.

## Main definitions

* `Lands`: what an evaluation may come to;
* `Expr.kind?`: the kind of an expression, found without evaluating it.

## Main results

* `Store.lands_set`: a value of the right kind is stored;
* `Expr.lands_eval`: an expression with a kind has a value of that kind;
* `Expr.lands_eval_none`: an expression without a kind has no value;
* `Expr.kind_decides`: both, and what follows for the values that there are.
-/

namespace LineBasic

/-! ## What an evaluation comes to -/

/-- A value with a property, or an error of a class. -/
def Lands {α : Type} (P : RuntimeError → Prop) (Q : α → Prop) : Except RuntimeError α → Prop
  | .ok value => Q value
  | .error error => P error

namespace Lands

variable {α β : Type} {P : RuntimeError → Prop} {Q : α → Prop} {R : β → Prop}

theorem bind {result : Except RuntimeError α} {next : α → Except RuntimeError β}
    (h : Lands P Q result) (hnext : ∀ value, Q value → Lands P R (next value)) :
    Lands P R (result >>= next) := by
  cases result with
  | ok value => exact hnext value h
  | error error => exact h

theorem mono {P' : RuntimeError → Prop} {Q' : α → Prop} {result : Except RuntimeError α}
    (h : Lands P Q result) (herror : ∀ error, P error → P' error)
    (hvalue : ∀ value, Q value → Q' value) : Lands P' Q' result := by
  cases result with
  | ok value => exact hvalue value h
  | error error => exact herror error h

theorem imp {Q' : α → Prop} {result : Except RuntimeError α} (h : Lands P Q result)
    (hvalue : ∀ value, Q value → Q' value) : Lands P Q' result :=
  h.mono (fun _ herror => herror) hvalue

/-- Evaluations in a row land where each of them does. -/
theorem mapM {f : β → Except RuntimeError α} {items : List β}
    (h : ∀ item ∈ items, Lands P Q (f item)) :
    Lands P (fun values => ∀ value ∈ values, Q value) (items.mapM f) := by
  induction items with
  | nil =>
      intro value hmem
      cases hmem
  | cons item later ih =>
      obtain ⟨hitem, hlater⟩ := List.forall_mem_cons.mp h
      rw [List.mapM_cons]
      refine hitem.bind fun value hvalue => (ih hlater).bind fun values hvalues => ?_
      exact List.forall_mem_cons.mpr ⟨hvalue, hvalues⟩

end Lands

/-! ## Variables -/

/-- Letter case does not change a name's kind. -/
theorem Kind.ofName_toUpper (name : String) : Kind.ofName name.toUpper = Kind.ofName name := by
  have hdollar (c : Char) : c.toUpper = '$' ↔ c = '$' := by
    constructor
    · intro h
      by_cases hlower : c.isLower
      · have hshift := Text.toNat_toUpper hlower
        have hrange := Text.isLower_iff.mp hlower
        have hcode : '$'.toNat = 36 := rfl
        rw [h] at hshift
        omega
      · rwa [Text.toUpper_of_not_isLower hlower] at h
    · rintro rfl
      rfl
  have hupper : name.toUpper.toList = name.toList.map Char.toUpper := String.toList_map
  unfold ofName
  rw [hupper, List.getLast?_map]
  cases name.toList.getLast? with
  | none => rfl
  | some c => simp [hdollar]

/-- What is read from a variable has the variable's kind. -/
theorem Store.kind_get (store : Store) (name : String) :
    (store.get name).kind = Kind.ofName name := by
  rw [← Kind.ofName_toUpper]
  unfold get
  dsimp only
  cases Kind.ofName name.toUpper <;> rfl

/-- A value of the variable's kind is stored, and any other is refused. -/
theorem Store.lands_set (store : Store) (name : String) (value : Value) :
    Lands (fun error => value.kind ≠ Kind.ofName name ∧
        error = .variableKind name.toUpper (Kind.ofName name))
      (fun _ => value.kind = Kind.ofName name) (store.set name value) := by
  rw [← Kind.ofName_toUpper]
  unfold set
  dsimp only
  cases Kind.ofName name.toUpper <;> cases value <;> simp [Lands, Value.kind]

/-- A value of the variable's kind is what is read from the variable afterwards. -/
theorem Store.exists_set (store : Store) {name : String} {value : Value}
    (h : value.kind = Kind.ofName name) :
    ∃ after, store.set name value = .ok after ∧ after.get name = value := by
  rw [← Kind.ofName_toUpper] at h
  unfold set get
  dsimp only
  rw [← h]
  cases value with
  | number x => exact ⟨_, rfl, by simp [Value.kind, Table.get?_set]⟩
  | text content => exact ⟨_, rfl, by simp [Value.kind, Table.get?_set]⟩

/-- A line of input gives a variable a value of its kind, if it gives it one. -/
theorem Value.lands_ofInput (name : String) (line : Option String) :
    Lands (fun error => error = .endOfInput ∨ ∃ text, error = .inputFormat text)
      (fun value => value.kind = Kind.ofName name) (Value.ofInput name line) := by
  unfold ofInput
  cases Kind.ofName name with
  | text => exact rfl
  | number =>
      cases line with
      | none => exact .inl rfl
      | some line =>
          dsimp only
          split
          · exact rfl
          · exact .inr ⟨line, rfl⟩

/-! ## Expressions -/

/-- The kind of an operator's value: equality wants operands of one kind, every other operator wants
numbers. -/
def Operator.kind? (op : Operator) (left right : Kind) : Option Kind :=
  match op with
  | .equal | .notEqual => if left = right then some .number else none
  | _ => if left = .number ∧ right = .number then some .number else none

/-- The kind of an expression, if its operators have operands that they can take. -/
def Expr.kind? : Expr → Option Kind
  | .number _ => some .number
  | .text _ => some .text
  | .variable name => some (Kind.ofName name)
  | .sign _ operand => if operand.kind? = some .number then some .number else none
  | .binary left op right =>
    left.kind?.bind fun leftKind => right.kind?.bind fun rightKind => op.kind? leftKind rightKind

/-- Between numbers an operator gives a number, or a division by zero. -/
theorem Operator.lands_applyNumbers (op : Operator) (a b : Float) :
    Lands (· = .divisionByZero) (fun value => value.kind = .number) (op.applyNumbers a b) := by
  cases op
  case divide =>
    unfold applyNumbers
    dsimp only
    split
    · exact rfl
    · exact rfl
  all_goals exact rfl

/-- Between values of kinds that it can take, an operator gives a value of its kind. -/
theorem Operator.lands_apply {op : Operator} {a b : Value} {kind : Kind}
    (h : op.kind? a.kind b.kind = some kind) :
    Lands (· = .divisionByZero) (fun value => value.kind = kind) (op.apply a b) := by
  cases a with
  | number x =>
      cases b with
      | number y =>
          have hkind : kind = .number := by cases op <;> simpa [kind?, Value.kind] using h.symm
          subst hkind
          exact op.lands_applyNumbers x y
      | text content => cases op <;> simp [kind?, Value.kind] at h
  | text content =>
      cases b with
      | number y => cases op <;> simp [kind?, Value.kind] at h
      | text other =>
          cases op
          case equal | notEqual => exact Option.some.inj h
          all_goals simp [kind?, Value.kind] at h

theorem Sign.lands_apply (sign : Sign) {value : Value} (h : value.kind = .number) :
    Lands (· = .divisionByZero) (fun result => result.kind = .number) (sign.apply value) := by
  cases value with
  | number x => cases sign <;> exact rfl
  | text content => cases h

/-- **An expression with a kind has a value of that kind**, or a division by zero, whatever the
variables hold. -/
theorem Expr.lands_eval {e : Expr} {kind : Kind} (h : e.kind? = some kind) (store : Store) :
    Lands (· = .divisionByZero) (fun value => value.kind = kind) (e.eval store) := by
  induction e generalizing kind with
  | number value => exact Option.some.inj h
  | text content => exact Option.some.inj h
  | «variable» name => exact (store.kind_get name).trans (Option.some.inj h)
  | sign s operand ih =>
      unfold kind? at h
      split at h
      · next hoperand =>
        rw [← Option.some.inj h]
        exact (ih hoperand).bind fun value hvalue => s.lands_apply hvalue
      · cases h
  | binary left op right ihleft ihright =>
      obtain ⟨leftKind, hleft, h⟩ := Option.bind_eq_some_iff.mp h
      obtain ⟨rightKind, hright, h⟩ := Option.bind_eq_some_iff.mp h
      refine (ihleft hleft).bind fun a ha => (ihright hright).bind fun b hb => ?_
      subst ha hb
      exact Operator.lands_apply h

/-! ## Expressions without a kind -/

/-- An error that an expression can have: operands of kinds that its operator cannot take, or a
division by zero. -/
def RuntimeError.isOfExpression : RuntimeError → Bool
  | .operandKind _ | .comparisonKinds | .divisionByZero => true
  | _ => false

/-- A sign in front of a text is an error. -/
theorem Sign.lands_apply_text (sign : Sign) {value : Value} (h : value.kind ≠ .number) :
    Lands (fun error => error.isOfExpression) (fun _ => False) (sign.apply value) := by
  cases value with
  | number x => exact absurd rfl h
  | text content => cases sign <;> exact rfl

/-- Between values of kinds that it cannot take, an operator is an error. -/
theorem Operator.lands_apply_none {op : Operator} {a b : Value}
    (h : op.kind? a.kind b.kind = none) :
    Lands (fun error => error.isOfExpression) (fun _ => False) (op.apply a b) := by
  cases a with
  | number x =>
      cases b with
      | number y => cases op <;> simp [kind?, Value.kind] at h
      | text content => cases op <;> exact rfl
  | text content =>
      cases b with
      | number y => cases op <;> exact rfl
      | text other =>
          cases op
          case equal | notEqual => simp [kind?, Value.kind] at h
          all_goals exact rfl

/-- **An expression without a kind has no value**, whatever the variables hold. The error need not be
one about kinds: a division by zero in one of the operands comes before it. -/
theorem Expr.lands_eval_none {e : Expr} (h : e.kind? = none) (store : Store) :
    Lands (fun error => error.isOfExpression) (fun _ => False) (e.eval store) := by
  have hlands {operand : Expr} {kind : Kind} (hkind : operand.kind? = some kind) :
      Lands (fun error => error.isOfExpression) (fun value => value.kind = kind)
        (operand.eval store) := by
    refine (lands_eval hkind store).mono ?_ fun _ hvalue => hvalue
    rintro error rfl
    rfl
  induction e with
  | number value => cases h
  | text content => cases h
  | «variable» name => cases h
  | sign s operand ih =>
      cases hkind : operand.kind? with
      | none => exact (ih hkind).bind fun _ hnone => hnone.elim
      | some kind =>
          refine (hlands hkind).bind fun value hvalue => s.lands_apply_text fun hnumber => ?_
          rw [hnumber] at hvalue
          rw [kind?, hkind, ← hvalue, if_pos rfl] at h
          cases h
  | binary left op right ihleft ihright =>
      cases hleft : left.kind? with
      | none => exact (ihleft hleft).bind fun _ hnone => hnone.elim
      | some leftKind =>
          refine (hlands hleft).bind fun a ha => ?_
          cases hright : right.kind? with
          | none => exact (ihright hright).bind fun _ hnone => hnone.elim
          | some rightKind =>
              refine (hlands hright).bind fun b hb => Operator.lands_apply_none ?_
              rw [kind?, hleft, hright] at h
              rw [ha, hb]
              exact h

/-- **The kind of a value is in the text of its expression.** In every store an expression with a
kind has a value of that kind or divides by zero, and so it never has an error about kinds. An
expression without one is an error in every store. So whatever value an expression has, in whatever
store, is of the kind that its text gives it. -/
theorem Expr.kind_decides (e : Expr) (store : Store) :
    (∀ kind, e.kind? = some kind →
        (∃ value, e.eval store = .ok value ∧ value.kind = kind) ∨
          e.eval store = .error .divisionByZero) ∧
      (e.kind? = none → ∃ error, e.eval store = .error error ∧
        ((∃ symbol, error = .operandKind symbol) ∨ error = .comparisonKinds ∨
          error = .divisionByZero)) ∧
      ∀ value, e.eval store = .ok value → e.kind? = some value.kind := by
  have hkinded {kind : Kind} (hkind : e.kind? = some kind) := lands_eval hkind store
  have hunkinded (hnone : e.kind? = none) := lands_eval_none hnone store
  cases heval : e.eval store with
  | ok value =>
      simp only [heval] at hkinded hunkinded
      refine ⟨fun kind hkind => .inl ⟨value, rfl, hkinded hkind⟩,
        fun hnone => (hunkinded hnone).elim, ?_⟩
      rintro _ ⟨⟩
      cases hkind : e.kind? with
      | none => exact (hunkinded hkind).elim
      | some kind => rw [hkinded hkind]
  | error error =>
      simp only [heval] at hkinded hunkinded
      refine ⟨fun kind hkind => .inr (congrArg _ (hkinded hkind)),
        fun hnone => ⟨error, rfl, ?_⟩, fun _ hvalue => by cases hvalue⟩
      have herror : error.isOfExpression := hunkinded hnone
      cases error with
      | operandKind symbol => exact .inl ⟨symbol, rfl⟩
      | comparisonKinds => exact .inr (.inl rfl)
      | divisionByZero => exact .inr (.inr rfl)
      | _ => cases herror

/-- A quotient whose divisor is a variable. -/
def Expr.quotient : Expr := .binary (.number 1) .divide (.variable "n")

/-- A sum of the quotient and a text with a sign in front of it. -/
def Expr.signedSum : Expr := .binary quotient .add (.sign .minus (.variable "a$"))

/-- The quotient is a number or divides by zero. The sum has no kind and is an error in every store:
about the quotient, if that divides by zero, and else about the sign. -/
theorem Expr.kind_decides_quotient :
    quotient.kind? = some .number ∧ signedSum.kind? = none ∧
      (∀ store : Store,
        (∃ value, quotient.eval store = .ok value ∧ value.kind = .number) ∨
          quotient.eval store = .error .divisionByZero) ∧
      (∀ store : Store, ∃ error, signedSum.eval store = .error error) ∧
      signedSum.eval .empty = .error .divisionByZero ∧
      signedSum.eval ⟨Table.empty.set "N" 2, .empty⟩ = .error (.operandKind "-") := by
  have hquotient : quotient.kind? = some .number := by decide +kernel
  have hsum : signedSum.kind? = none := by decide +kernel
  have hzero : Store.empty.get "n" = .number 0 := by decide +kernel
  have htwo : Store.get ⟨Table.empty.set "N" 2, .empty⟩ "n" = .number 2 := by decide +kernel
  have htext : Store.get ⟨Table.empty.set "N" 2, .empty⟩ "a$" = .text "" := by decide +kernel
  refine ⟨hquotient, hsum, fun store => (kind_decides quotient store).1 _ hquotient,
    fun store => ?_, ?_, ?_⟩
  · obtain ⟨error, herror, -⟩ := (kind_decides signedSum store).2.1 hsum
    exact ⟨error, herror⟩
  · simp only [signedSum, quotient, eval, hzero]
    rfl
  · simp only [signedSum, quotient, eval, htwo, htext]
    rfl

end LineBasic
