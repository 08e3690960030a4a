import LineBasic.SyntaxError

/-!
# Replies of a reader

A reader is given a list of tokens and takes a phrase off its front. Its reply carries the tokens
that it left, after a failure too: reading may go on where a failed attempt stopped.

A reply is indexed by a bound on the tokens left: fewer than the bound after a success, and no more
after a failure. A reader of `tokens` that must take at least one of them replies within
`tokens.length`; one that may take none, within one more. The recursion of the readers ends by these
bounds, so they are part of the type.
-/

namespace LineBasic

/-- A reader's reply within a bound. -/
inductive Reply (α : Type) (limit : Nat) where
  | done (value : α) (rest : List Token) (fewer : rest.length < limit)
  | fault (error : SyntaxError) (rest : List Token) (noMore : rest.length ≤ limit)

namespace Reply

variable {α β : Type} {m n : Nat}

/-- The tokens left. -/
def rest : Reply α n → List Token
  | .done _ rest _ => rest
  | .fault _ rest _ => rest

/-- The value, or the error. -/
def result : Reply α n → Except SyntaxError α
  | .done value _ _ => .ok value
  | .fault error _ _ => .error error

/-- The same reply within a larger bound. -/
def weaken (h : m ≤ n) : Reply α m → Reply α n
  | .done value rest fewer => .done value rest (Nat.lt_of_lt_of_le fewer h)
  | .fault error rest noMore => .fault error rest (Nat.le_trans noMore h)

/-- The reply of a reader that was given what follows a token, as the reply of one that was given
the token too. -/
def afterToken (r : Reply α n) : Reply α (n + 1) := r.weaken (Nat.le_succ n)

/-- A value, with some tokens left. The bound is met by whoever took one token, and by whoever need
not take any. -/
def leaving (value : α) (rest : List Token) : Reply α (rest.length + 1) :=
  .done value rest (Nat.lt_succ_self _)

/-- An error that leaves all the tokens. -/
def refusing (error : SyntaxError) (tokens : List Token) : Reply α tokens.length :=
  .fault error tokens (Nat.le_refl _)

/-- An error that takes the token in front, if there is one. -/
def rejecting (error : SyntaxError) : (tokens : List Token) → Reply α tokens.length
  | [] => refusing error []
  | _ :: rest => (refusing error rest).afterToken

/-- The reply with its value changed. -/
def map (f : α → β) : Reply α n → Reply β n
  | .done value rest fewer => .done (f value) rest fewer
  | .fault error rest noMore => .fault error rest noMore

theorem rest_length_le : (r : Reply α n) → r.rest.length ≤ n
  | .done _ _ fewer => Nat.le_of_lt fewer
  | .fault _ _ noMore => noMore

@[simp] theorem rest_weaken (h : m ≤ n) (r : Reply α m) : (r.weaken h).rest = r.rest := by
  cases r <;> rfl

@[simp] theorem result_weaken (h : m ≤ n) (r : Reply α m) : (r.weaken h).result = r.result := by
  cases r <;> rfl

@[simp] theorem rest_afterToken (r : Reply α n) : r.afterToken.rest = r.rest := rest_weaken _ r

@[simp] theorem result_afterToken (r : Reply α n) : r.afterToken.result = r.result :=
  result_weaken _ r

@[simp] theorem rest_rejecting (error : SyntaxError) (tokens : List Token) :
    (rejecting error tokens : Reply α tokens.length).rest = tokens.tail := by
  cases tokens <;> rfl

@[simp] theorem rest_map (f : α → β) (r : Reply α n) : (r.map f).rest = r.rest := by
  cases r <;> rfl

@[simp] theorem result_map (f : α → β) (r : Reply α n) : (r.map f).result = r.result.map f := by
  cases r <;> rfl

end Reply

end LineBasic
