import LineBasic.Proofs.StatementGrammar
import LineBasic.Proofs.Window

/-!
# Reading statements through a window

The readers of a statement are written once more, for a reader that has a window on the tokens
instead of the list. They call each other as long as there is something to read. Nothing in them
says that there is an end to it, so each has a depth that it may go to, and a loop a number of
rounds: what is deeper is not reached, and has no outcome.

A reader that may go deeper than there are tokens finds what the reader of lists finds, the same
value or the same error, and leaves the window on the tokens that it leaves (`follows_statements`).
So the readers need no more depth than that, and they never come to a token that they are not
meant to come to.

## Main definitions

* `Reading.expression`, `Reading.statement`, `Reading.whole`: the readers;
* `Follows`: a reader of a window does what a reader of lists does.

## Main results

* `follows_expressions`, `follows_statements`, `follows_whole`: every reader does.
-/

namespace LineBasic

namespace Reading

/-! ## Expressions -/

/-- Reads a literal or a variable. -/
def atom : Reading Expr := do
  match ← advance with
  | some (.number digits) =>
    match Expr.literal? digits with
    | some value => return .number value
    | none => throw (.invalidNumber digits)
  | some (.text content) => return .text content
  | some (.name word) => return .variable word
  | _ => never

/-- Reads a sign. -/
def sign : Reading Sign := do
  if (← advance) = some (.operator .add) then return .plus else return .minus

/-- Reads an operator. -/
def operator : Reading Operator := do
  match ← advance with
  | some (.operator op) => return op
  | _ => never

/-- How strongly the token in front binds what is before it. -/
def strength : Reading Nat := return ((← current).map Token.precedence).getD 0

/-- Reads a sign and what it is the sign of. -/
def signed (inner : Nat → Reading Expr) : Reading Expr := do
  let found ← sign
  return .sign found (← inner Sign.precedence)

/-- Reads an expression in parentheses. -/
def parenthesised (inner : Nat → Reading Expr) : Reading Expr := do
  let _ ← advance
  let found ← inner 0
  if (← current) = some .rightParen then
    let _ ← advance
    return found
  else throw .rightParenRequired

/-- Reads an operand. -/
def operand (inner : Nat → Reading Expr) : Reading Expr := do
  match ← current with
  | some (.number _) => atom
  | some (.text _) => atom
  | some (.name _) => atom
  | some (.operator .add) => signed inner
  | some (.operator .subtract) => signed inner
  | some .leftParen => parenthesised inner
  | front => throw (.ofTokens front.toList)

/-- Reads an operator and its right operand. -/
def operation (inner : Nat → Reading Expr) (left : Expr) (binding : Nat) : Reading Expr := do
  let op ← operator
  return .binary left op (← inner binding)

/-- Reads every operator that binds more than the level, with its right operand. -/
def operators (inner : Nat → Reading Expr) (level : Nat) : Nat → Expr → Reading Expr
  | 0, _ => never
  | rounds + 1, left => do
    let binding ← strength
    if binding ≤ level then return left
    else operators inner level rounds (← operation inner left binding)

/-- Reads an operand and every operator after it that binds more than the level. -/
def expression : Nat → Nat → Reading Expr
  | 0, _ => never
  | depth + 1, level => do
    operators (expression depth) level depth (← operand (expression depth))

/-! ## Statements -/

/-- Reads the variable that has to follow a keyword. -/
def identifier (after : Keyword) : Reading String := do
  match ← advance with
  | some (.name word) => return word
  | _ => throw (.nameRequired after)

/-- The line that some digits are the number of. -/
def target (digits : String) : Reading LineNumber :=
  match LineNumber.ofDigits? digits.toList with
  | some line => return line
  | none => throw (.invalidLineNumber digits)

/-- Reads the line number that has to follow a keyword. -/
def lineNumber (after : Keyword) : Reading LineNumber := do
  match ← advance with
  | some (.number digits) => target digits
  | _ => throw (.lineNumberRequired after)

/-- Reads a variable, an equals sign and an expression. -/
def assignment (depth : Nat) : Reading Statement := do
  let name ← identifier .LET
  if (← current) = some (.operator .equal) then
    let _ ← advance
    return .assign name (← expression depth 0)
  else throw .equalRequired

/-- Reads the expressions after a comma, for as long as there is one. -/
def items (depth : Nat) : Nat → List Expr → Reading (List Expr)
  | 0, _ => never
  | rounds + 1, found => do
    if (← current) = some .comma then
      let _ ← advance
      items depth rounds (found ++ [← expression depth 0])
    else return found

/-- Reads `PRINT` and what it prints. -/
def print (depth : Nat) : Reading Statement := do
  let _ ← advance
  if (← current) = none then return .print []
  else
    let first ← expression depth 0
    return .print (← items depth depth [first])

/-- Reads `THEN` and what follows it: a line number that is the last token, or else a statement. -/
def consequence (body : Reading Statement) (condition : Expr) : Reading Statement := do
  if (← current) = some (.keyword .THEN) then
    let _ ← advance
    match ← current, ← peek with
    | some (.number digits), none =>
      let line ← target digits
      let _ ← advance
      return .ifJump condition line
    | _, _ => return .ifThen condition (← body)
  else throw .consequenceRequired

/-- Reads `IF`, the condition, `THEN` and what follows it. -/
def conditional (depth : Nat) (body : Reading Statement) : Reading Statement := do
  let _ ← advance
  consequence body (← expression depth 0)

/-- Reads a statement. -/
def statement : Nat → Reading Statement
  | 0 => never
  | depth + 1 => do
    match ← current with
    | some (.keyword .REM) =>
      let _ ← advance
      return .comment
    | some (.keyword .LET) =>
      let _ ← advance
      assignment depth
    | some (.name word) =>
      if (← peek) = some (.operator .equal) then assignment depth
      else throw (.unexpectedName word)
    | some (.keyword .PRINT) => print depth
    | some (.keyword .INPUT) =>
      let _ ← advance
      return .input (← identifier .INPUT)
    | some (.keyword .IF) => conditional depth (statement depth)
    | some (.keyword .GOTO) =>
      let _ ← advance
      return .jump (← lineNumber .GOTO)
    | some (.keyword .END) =>
      let _ ← advance
      return .stop
    | front => throw (.ofTokens front.toList)

/-- Reads a statement that nothing may follow, unless it ends in a comment. -/
def whole (depth : Nat) : Reading Statement := do
  let found ← statement depth
  match ← current with
  | none => return found
  | some next => if found.endsInComment then return found else throw (.trailing next)

end Reading

/-! ## Following a reader of lists -/

/-- From every window that shows the tokens, a reading has the result of a reader of lists, and the
window is left on the tokens that the reader leaves. -/
def Follows {α : Type} {limit : Nat} (x : Reading α) (tokens : List Token)
    (reply : Reply α limit) : Prop := Reads x tokens reply.result reply.rest

namespace Follows

variable {α β : Type} {m n : Nat} {x : Reading α} {tokens : List Token} {reply : Reply α n}

/-- Bounds do not matter to what is followed. -/
theorem weaken {reply : Reply α m} (h : m ≤ n) (hx : Follows x tokens reply) :
    Follows x tokens (reply.weaken h) := by
  rw [Follows, Reply.result_weaken, Reply.rest_weaken]
  exact hx

theorem afterToken (h : Follows x tokens reply) : Follows x tokens reply.afterToken := h.weaken _

/-- A value that is changed where it is read. -/
theorem map (f : α → β) (h : Follows x tokens reply) :
    Follows (do return f (← x)) tokens (reply.map f) := by
  cases reply with
  | done a rest fewer => exact Reads.bind h (.pure _ rest)
  | fault error rest noMore => exact Reads.bind_fault h

/-- An error instead of the token in front. -/
theorem rejecting {error : SyntaxError} (h : Reads x tokens (.error error) tokens.tail) :
    Follows x tokens (.rejecting error tokens) := by
  cases tokens with
  | nil => exact h
  | cons token rest => exact h

end Follows

/-- The error at a token that no reader can use depends on that token alone. -/
theorem SyntaxError.ofTokens_head? (tokens : List Token) :
    ofTokens tokens.head?.toList = ofTokens tokens := by
  cases tokens with
  | nil => rfl
  | cons token rest => cases token <;> rfl

open Reading

/-! ## Expressions -/

section Expressions

variable {inner : Nat → Reading Expr} {level : Nat} {left : Expr} {tokens rest : List Token}

/-- A sign is read with what it is the sign of. -/
theorem follows_signed {op : Operator} {found : Sign}
    (hsign : Reads Reading.sign (.operator op :: rest) (.ok found) rest)
    (h : Follows (inner Sign.precedence) rest (Expr.readAbove Sign.precedence rest)) :
    Follows (signed inner) (.operator op :: rest)
      ((Expr.readAbove Sign.precedence rest).map (.sign found)).afterToken := by
  refine .afterToken ?_
  rw [signed]
  exact Reads.bind hsign (h.map (Expr.sign found))

/-- An expression that has been read is followed by a closing parenthesis, or by an error. -/
theorem follows_closeParen (found : Expr) (tokens : List Token) :
    Follows (do
      if (← current) = some .rightParen then
        let _ ← advance
        return found
      else throw .rightParenRequired) tokens (Expr.closeParen found tokens) := by
  refine .current_bind ?_
  cases tokens with
  | nil => exact .throw _ []
  | cons token rest =>
      by_cases hparen : token = .rightParen
      · subst hparen
        exact .advance_bind (.pure found rest)
      · rw [if_neg (by simpa using hparen)]
        cases token with
        | rightParen => exact absurd rfl hparen
        | _ => exact .throw _ _

theorem reads_strength (tokens : List Token) :
    Reads strength tokens (.ok (headPrecedence tokens)) tokens := by
  refine .current_bind ?_
  cases tokens with
  | nil => exact .pure 0 []
  | cons token rest => exact .pure token.precedence (token :: rest)

/-- Where the token in front does not bind more than the level, no operator is read. -/
theorem reads_operators_stop (rounds : Nat) (left : Expr) (h : headPrecedence tokens ≤ level) :
    Reads (operators inner level (rounds + 1) left) tokens (.ok left) tokens := by
  rw [operators]
  refine .bind (reads_strength tokens) ?_
  rw [if_pos h]
  exact .pure left tokens

/-- Where it does, it is an operator, and what is read behind it is its right operand. -/
theorem reads_operators_go {rounds : Nat} {result : Except SyntaxError Expr}
    (h : level < headPrecedence tokens)
    (hreads : Reads (operation inner left (headPrecedence tokens) >>=
      operators inner level rounds) tokens result rest) :
    Reads (operators inner level (rounds + 1) left) tokens result rest := by
  rw [operators]
  refine .bind (reads_strength tokens) ?_
  rw [if_neg (Nat.not_le.mpr h)]
  exact hreads

/-- The reader of operands follows that of lists, if the readers inside may go as deep as there are
tokens. -/
def OperandFollows (tokens : List Token) : Prop :=
  ∀ depth, tokens.length ≤ depth →
    Follows (operand (expression depth)) tokens (Expr.readOperand tokens)

/-- The same for the reader at a level, which goes deeper by one. -/
def AboveFollows (level : Nat) (tokens : List Token) : Prop :=
  ∀ depth, tokens.length < depth →
    Follows (expression depth level) tokens (Expr.readAbove level tokens)

/-- The same for the reader of operators, which takes one round for each of them and one more. -/
def OperatorsFollow (level : Nat) (left : Expr) (tokens : List Token) : Prop :=
  ∀ depth rounds, tokens.length ≤ depth → tokens.length ≤ rounds →
    Follows (operators (expression depth) level (rounds + 1) left) tokens
      (Expr.readOperators level left tokens)

/-- Every reader of expressions follows the one of lists. -/
theorem follows_expressions :
    (∀ tokens, OperandFollows tokens) ∧ (∀ level tokens, AboveFollows level tokens) ∧
      ∀ level left tokens, OperatorsFollow level left tokens := by
  refine Expr.readOperand.mutual_induct OperandFollows AboveFollows OperatorsFollow
    ?number ?invalid ?text ?name ?plus ?minus ?parens ?unclosed ?other
    ?above ?noOperand ?operator ?noRight ?weak ?stop
  case number =>
    intro digits rest value hvalue depth _
    rw [Expr.readOperand, hvalue, operand]
    refine .current_bind (.advance_bind ?_)
    simp only [List.head?_cons, hvalue]
    exact .pure _ rest
  case invalid =>
    intro digits rest hvalue depth _
    rw [Expr.readOperand, hvalue, operand]
    refine .current_bind (.advance_bind ?_)
    simp only [List.head?_cons, hvalue]
    exact .throw _ rest
  case text =>
    intro content rest depth _
    rw [Expr.readOperand, operand]
    exact .current_bind (.advance_bind (.pure _ rest))
  case name =>
    intro word rest depth _
    rw [Expr.readOperand, operand]
    exact .current_bind (.advance_bind (.pure _ rest))
  case plus =>
    intro rest ih depth hdepth
    rw [Expr.readOperand, operand]
    exact .current_bind (follows_signed (.advance_bind (.pure _ rest)) (ih depth hdepth))
  case minus =>
    intro rest ih depth hdepth
    rw [Expr.readOperand, operand]
    exact .current_bind (follows_signed (.advance_bind (.pure _ rest)) (ih depth hdepth))
  case parens =>
    intro rest found after fewer hfound ih depth hdepth
    have hinner := ih depth hdepth
    rw [hfound] at hinner
    rw [Expr.readOperand, hfound, operand]
    refine .afterToken (.weaken fewer (.current_bind ?_))
    rw [parenthesised]
    exact .advance_bind (.bind hinner (follows_closeParen found after))
  case unclosed =>
    intro rest error after noMore hfault ih depth hdepth
    have hinner := ih depth hdepth
    rw [hfault] at hinner
    rw [Expr.readOperand, hfault, operand]
    refine .afterToken (.current_bind ?_)
    rw [parenthesised]
    exact .advance_bind (.bind_fault hinner)
  case other =>
    intro tokens hnumber htext hname hadd hsubtract hparen depth _
    have hthrow := Reads.throw (α := Expr) (.ofTokens tokens) tokens
    rw [← SyntaxError.ofTokens_head?] at hthrow
    rw [Expr.readOperand.eq_7 tokens hnumber htext hname hadd hsubtract hparen, operand]
    refine .current_bind ?_
    cases tokens with
    | nil => exact hthrow
    | cons token rest =>
        cases token with
        | number digits => exact absurd rfl (hnumber digits rest)
        | text content => exact absurd rfl (htext content rest)
        | name word => exact absurd rfl (hname word rest)
        | leftParen => exact absurd rfl (hparen rest)
        | operator op =>
            cases op with
            | add => exact absurd rfl (hadd rest)
            | subtract => exact absurd rfl (hsubtract rest)
            | _ => exact hthrow
        | _ => exact hthrow
  case above =>
    intro level tokens left after fewer hleft ihOperand ihOperators depth hdepth
    obtain ⟨depth, rfl⟩ := Nat.exists_eq_add_one_of_ne_zero (Nat.ne_zero_of_lt hdepth)
    have htokens : tokens.length ≤ depth := Nat.le_of_lt_succ hdepth
    have hafter : after.length < depth := Nat.lt_of_lt_of_le fewer htokens
    obtain ⟨rounds, rfl⟩ := Nat.exists_eq_add_one_of_ne_zero (Nat.ne_zero_of_lt hafter)
    have hread := ihOperand (rounds + 1) htokens
    have hlater := ihOperators (rounds + 1) rounds (Nat.le_of_lt hafter) (Nat.le_of_lt_succ hafter)
    rw [hleft] at hread
    rw [Expr.readAbove, hleft, expression]
    exact .weaken fewer (.bind hread hlater)
  case noOperand =>
    intro level tokens error after noMore hfault ih depth hdepth
    obtain ⟨depth, rfl⟩ := Nat.exists_eq_add_one_of_ne_zero (Nat.ne_zero_of_lt hdepth)
    have hread := ih depth (Nat.le_of_lt_succ hdepth)
    rw [hfault] at hread
    rw [Expr.readAbove, hfault, expression]
    exact .bind_fault hread
  case operator =>
    intro level left op rest hlevel right after fewer hright ihAbove ihOperators depth rounds
      hdepth hrounds
    obtain ⟨rounds, rfl⟩ := Nat.exists_eq_add_one_of_ne_zero (Nat.ne_zero_of_lt hrounds)
    rw [List.length_cons] at hdepth hrounds
    have hread := ihAbove depth hdepth
    have hlater := ihOperators depth rounds (by omega) (by omega)
    rw [hright] at hread
    rw [Expr.readOperators, if_pos hlevel, hright]
    refine .afterToken (.afterToken (.weaken fewer (reads_operators_go hlevel ?_)))
    rw [operation]
    exact .bind (.bind (.advance_bind (.pure op rest)) (.bind hread (.pure _ after))) hlater
  case noRight =>
    intro level left op rest hlevel error after noMore hfault ih depth rounds hdepth _
    have hread := ih depth hdepth
    rw [hfault] at hread
    rw [Expr.readOperators, if_pos hlevel, hfault]
    refine .afterToken (.afterToken (reads_operators_go hlevel ?_))
    rw [operation]
    exact .bind_fault (.bind (.advance_bind (.pure op rest)) (.bind_fault hread))
  case weak =>
    intro level left op rest hlevel depth rounds _ _
    rw [Expr.readOperators, if_neg hlevel]
    exact reads_operators_stop rounds left (Nat.not_lt.mp hlevel)
  case stop =>
    intro level left tokens hoperator depth rounds _ _
    rw [Expr.readOperators.eq_2 level left tokens hoperator]
    refine reads_operators_stop rounds left ?_
    rw [headPrecedence_eq_zero hoperator]
    exact Nat.zero_le level

end Expressions

/-! ## Statements -/

section Statements

variable {depth : Nat} {tokens : List Token}

private theorem head?_ne {token : Token} (h : ∀ rest, tokens = token :: rest → False) :
    tokens.head? ≠ some token := by
  intro hhead
  obtain ⟨rest, rfl⟩ := List.head?_eq_some_iff.mp hhead
  exact h rest rfl

theorem follows_expression (h : tokens.length < depth) :
    Follows (expression depth 0) tokens (Expr.read tokens) :=
  follows_expressions.2.1 0 tokens depth h

/-- A comma takes one round, and the end takes one. -/
theorem follows_items {rounds : Nat} (found : List Expr) (hdepth : tokens.length < depth)
    (hrounds : tokens.length < rounds) :
    Follows (items depth rounds found) tokens (Statement.readItems found tokens) := by
  obtain ⟨rounds, rfl⟩ := Nat.exists_eq_add_one_of_ne_zero (Nat.ne_zero_of_lt hrounds)
  fun_induction Statement.readItems found tokens generalizing rounds with
  | case1 found rest item after fewer hitem ih =>
      rw [List.length_cons] at hdepth hrounds
      obtain ⟨rounds, rfl⟩ := Nat.exists_eq_add_one_of_ne_zero (show rounds ≠ 0 by omega)
      have hread := follows_expression (Nat.lt_of_succ_lt hdepth)
      have hlater := ih (by omega) rounds (by omega)
      rw [hitem] at hread
      rw [items]
      refine .afterToken (.afterToken (.weaken fewer (.current_bind (.advance_bind ?_))))
      exact .bind hread hlater
  | case2 found rest error after noMore hfault =>
      have hread := follows_expression (Nat.lt_of_succ_lt hdepth)
      rw [hfault] at hread
      rw [items]
      exact .current_bind (.advance_bind (.bind_fault hread))
  | case3 found tokens hcomma =>
      rw [items]
      refine .current_bind ?_
      rw [if_neg (head?_ne hcomma)]
      exact .pure found tokens

theorem follows_print {rest : List Token} (h : rest.length < depth) :
    Follows (print depth) (.keyword .PRINT :: rest) (Statement.readPrint rest) := by
  rw [print]
  cases rest with
  | nil =>
      rw [Statement.readPrint]
      exact .advance_bind (.current_bind (.pure _ []))
  | cons token rest =>
      have hread := follows_expression h
      rw [Statement.readPrint.eq_2 _ (List.cons_ne_nil token rest)]
      cases hitem : Expr.read (token :: rest) with
      | done item after fewer =>
          have hlater := follows_items [item] (Nat.lt_trans fewer h) (Nat.lt_trans fewer h)
          rw [hitem] at hread
          refine .afterToken (.weaken fewer (.advance_bind (.current_bind ?_)))
          exact .bind hread (hlater.map Statement.print)
      | fault error after noMore =>
          rw [hitem] at hread
          exact .afterToken (.advance_bind (.current_bind (.bind_fault hread)))

theorem reads_identifier (after : Keyword) (name : String) (rest : List Token) :
    Reads (identifier after) (.name name :: rest) (.ok name) rest :=
  .advance_bind (.pure name rest)

/-- What stands in the place of a variable is taken, and is an error. -/
theorem reads_identifier_fault (after : Keyword)
    (h : ∀ name, tokens.head? ≠ some (.name name)) :
    Reads (identifier after) tokens (.error (.nameRequired after)) tokens.tail := by
  refine .advance_bind ?_
  cases tokens with
  | nil => exact .throw _ []
  | cons token rest =>
      cases token with
      | name name => exact absurd rfl (h name)
      | _ => exact .throw _ rest

theorem follows_input (tokens : List Token) :
    Follows (do return .input (← identifier .INPUT)) tokens (Statement.readInput tokens) := by
  unfold Statement.readInput
  split
  · next name rest => exact Reads.bind (reads_identifier .INPUT name rest) (.pure _ rest)
  · next hname =>
      have hfront := fun name => head?_ne (hname name)
      exact .rejecting (.bind_fault (reads_identifier_fault .INPUT hfront))

/-- The line that some digits are the number of, or what is wrong with them. -/
theorem reads_target (digits : String) (tokens : List Token) :
    Reads (target digits) tokens
      ((LineNumber.ofDigits? digits.toList).elim (.error (.invalidLineNumber digits)) .ok)
      tokens := by
  unfold target
  cases LineNumber.ofDigits? digits.toList with
  | none => exact .throw _ tokens
  | some line => exact .pure line tokens

theorem follows_jump (tokens : List Token) :
    Follows (do return .jump (← lineNumber .GOTO)) tokens (Statement.readJump tokens) := by
  unfold Statement.readJump
  split
  · next digits rest =>
      have htarget := reads_target digits rest
      split
      · next line hline =>
          rw [hline] at htarget
          exact Reads.bind (.advance_bind htarget) (.pure _ rest)
      · next hline =>
          rw [hline] at htarget
          exact Reads.bind_fault (.advance_bind htarget)
  · next hnumber =>
      refine .rejecting (.bind_fault (.advance_bind ?_))
      cases tokens with
      | nil => exact .throw _ []
      | cons token rest =>
          cases token with
          | number digits => exact absurd rfl (hnumber digits rest)
          | _ => exact .throw _ rest

theorem follows_assignment (h : tokens.length < depth + 2) :
    Follows (assignment depth) tokens (Statement.readAssignment tokens) := by
  rw [assignment]
  unfold Statement.readAssignment
  split
  · next name rest =>
      have hread : Follows (expression depth 0) rest _ := follows_expression (by simpa using h)
      refine .afterToken (.afterToken (.bind (reads_identifier .LET name _) ?_))
      exact .current_bind (.advance_bind (hread.map (Statement.assign name)))
  · next name rest hequal =>
      refine .afterToken (.bind (reads_identifier .LET name rest) (.current_bind ?_))
      rw [if_neg (head?_ne hequal)]
      exact .throw _ rest
  · next hequal hname =>
      have hfront := fun name => head?_ne (hname name)
      exact .rejecting (.bind_fault (reads_identifier_fault .LET hfront))

/-- The reader of statements follows that of lists, if the readers inside may go as deep as there
are tokens. -/
def StatementFollows (tokens : List Token) : Prop :=
  ∀ depth, tokens.length ≤ depth →
    Follows (statement (depth + 1)) tokens (Statement.read tokens)

/-- The same for the reader of what follows a condition. -/
def ConsequenceFollows (condition : Expr) (tokens : List Token) : Prop :=
  ∀ depth, tokens.length ≤ depth →
    Follows (consequence (statement depth) condition) tokens
      (Statement.readConsequence condition tokens)

/-- Every reader of statements follows the one of lists. -/
theorem follows_statements :
    (∀ tokens, StatementFollows tokens) ∧
      ∀ condition tokens, ConsequenceFollows condition tokens := by
  refine Statement.read.mutual_induct StatementFollows ConsequenceFollows
    ?comment ?letAssign ?assign ?name ?print ?input ?cond ?noCond ?jump ?stop ?other
    ?lineTarget ?noTarget ?body ?noThen
  case comment =>
    intro rest depth _
    rw [Statement.read, statement]
    exact .current_bind (.advance_bind (.pure _ rest))
  case letAssign =>
    intro rest depth hdepth
    have hread := follows_assignment (Nat.lt_add_right 2 hdepth)
    rw [Statement.read, statement]
    exact .afterToken (.current_bind (.advance_bind hread))
  case assign =>
    intro word rest depth hdepth
    have hread := follows_assignment (Nat.lt_add_right 1 (Nat.lt_succ_of_le hdepth))
    rw [Statement.read, statement]
    exact .current_bind (.peek_bind hread)
  case name =>
    intro word rest hequal depth _
    rw [Statement.read.eq_4 word rest hequal, statement]
    refine .current_bind (.peek_bind ?_)
    rw [if_neg]
    · exact .throw _ _
    · rw [List.getElem?_cons_succ, ← List.head?_eq_getElem?]
      exact head?_ne hequal
  case print =>
    intro rest depth hdepth
    rw [Statement.read, statement]
    exact .current_bind (follows_print hdepth)
  case input =>
    intro rest depth _
    rw [Statement.read, statement]
    exact .afterToken (.current_bind (.advance_bind (follows_input rest)))
  case cond =>
    intro rest condition after fewer hcondition ih depth hdepth
    have hread := follows_expression hdepth
    have hlater := ih depth (Nat.le_of_lt (Nat.lt_trans fewer hdepth))
    rw [hcondition] at hread
    rw [Statement.read, hcondition, statement]
    refine .afterToken (.weaken fewer (.current_bind ?_))
    rw [conditional]
    exact .advance_bind (.bind hread hlater)
  case noCond =>
    intro rest error after noMore hfault depth hdepth
    have hread := follows_expression hdepth
    rw [hfault] at hread
    rw [Statement.read, hfault, statement]
    refine .afterToken (.current_bind ?_)
    rw [conditional]
    exact .advance_bind (.bind_fault hread)
  case jump =>
    intro rest depth _
    rw [Statement.read, statement]
    exact .afterToken (.current_bind (.advance_bind (follows_jump rest)))
  case stop =>
    intro rest depth _
    rw [Statement.read, statement]
    exact .current_bind (.advance_bind (.pure _ rest))
  case other =>
    intro tokens hrem hlet hassign hname hprint hinput hif hgoto hend depth _
    have hthrow := Reads.throw (α := Statement) (.ofTokens tokens) tokens
    rw [← SyntaxError.ofTokens_head?] at hthrow
    rw [Statement.read.eq_10 tokens hrem hlet hassign hname hprint hinput hif hgoto hend, statement]
    refine .current_bind ?_
    cases tokens with
    | nil => exact hthrow
    | cons token rest =>
        cases token with
        | name word => exact absurd rfl (hname word rest)
        | keyword k =>
            cases k with
            | REM => exact absurd rfl (hrem rest)
            | LET => exact absurd rfl (hlet rest)
            | PRINT => exact absurd rfl (hprint rest)
            | INPUT => exact absurd rfl (hinput rest)
            | IF => exact absurd rfl (hif rest)
            | GOTO => exact absurd rfl (hgoto rest)
            | END => exact absurd rfl (hend rest)
            | _ => exact hthrow
        | _ => exact hthrow
  case lineTarget =>
    intro condition digits line hline depth _
    have htarget := reads_target digits [.number digits]
    rw [hline] at htarget
    rw [Statement.readConsequence, hline, consequence]
    refine .afterToken (.afterToken (.current_bind (.advance_bind ?_)))
    exact .current_bind (.peek_bind (.bind htarget (.advance_bind (.pure _ []))))
  case noTarget =>
    intro condition digits hline depth _
    have htarget := reads_target digits [.number digits]
    rw [hline] at htarget
    rw [Statement.readConsequence, hline, consequence]
    refine .afterToken (.afterToken (.current_bind (.advance_bind ?_)))
    exact .current_bind (.peek_bind (.bind_fault htarget))
  case body =>
    intro condition body hlone ih depth hdepth
    obtain ⟨depth, rfl⟩ := Nat.exists_eq_add_one_of_ne_zero (Nat.ne_zero_of_lt hdepth)
    have hbody := (ih depth (Nat.le_of_succ_le_succ hdepth)).map (Statement.ifThen condition)
    rw [Statement.readConsequence.eq_2 condition body hlone, consequence]
    refine .afterToken (.afterToken (.current_bind (.advance_bind (.current_bind (.peek_bind ?_)))))
    -- Only a number that is the last token is no statement.
    cases body with
    | nil => exact hbody
    | cons token rest =>
        cases token with
        | number digits =>
            cases rest with
            | nil => exact absurd rfl (hlone digits)
            | cons next later => exact hbody
        | _ => exact hbody
  case noThen =>
    intro condition tokens hlone hthen depth _
    rw [Statement.readConsequence.eq_3 condition tokens hlone hthen, consequence]
    refine .afterToken (.current_bind ?_)
    rw [if_neg (head?_ne hthen)]
    exact .throw _ tokens

/-- So does the reader of whole statements. -/
theorem follows_whole (h : tokens.length < depth) :
    Follows (whole depth) tokens (Statement.readWhole tokens) := by
  obtain ⟨depth, rfl⟩ := Nat.exists_eq_add_one_of_ne_zero (Nat.ne_zero_of_lt h)
  have hread := follows_statements.1 tokens depth (Nat.le_of_lt_succ h)
  rw [Statement.readWhole, whole]
  cases hstatement : Statement.read tokens with
  | done found rest fewer =>
      rw [hstatement] at hread
      refine .weaken fewer (.bind hread (.current_bind ?_))
      cases rest with
      | nil => exact .pure found []
      | cons next later =>
          rw [Statement.refuseTrailing]
          by_cases hcomment : found.endsInComment
          · simp only [hcomment, if_true]
            exact .pure found _
          · simp only [hcomment]
            exact .throw _ _
  | fault error rest noMore =>
      rw [hstatement] at hread
      exact .bind_fault hread

end Statements

end LineBasic
