import LineBasic.Proofs.Calls

/-!
# Every call makes progress

The readers with a window, once more, with a record of their calls. At every window and to every
depth each of them records one sound call (`records_expression`, `records_statement`), so it does
not matter how a window came about: in the middle of a statement that has failed, behind one that
was read, or at the end of the source. Only the readers that a keyword or an operator leads to have
to be called in front of it, and that they are is part of what is shown.

An attempt that may go deeper than there are tokens to come is known to end (`Attempts`). With the
record of its calls it is seen why: who has found something has taken a token, and who calls
another has either taken one or calls down a fixed order.

## Main definitions

* `Recording.expression`, `Recording.statement`, `Recording.whole`: the readers with a record;
* `StreamParser.record`: an attempt with a record.

## Main results

* `records_expression`, `records_statement`: every call is sound;
* `StreamParser.attempts_progress`: so are all calls of all attempts on a source.
-/

namespace LineBasic

/-! ## The readers, with a record -/

namespace Recording

/-- Reads a literal or a variable. -/
def atom : Recording Expr := call .atom (silently Reading.atom)

/-- Reads a sign and what it is the sign of. -/
def signed (inner : Nat → Recording Expr) : Recording Expr := do
  let found ← silently Reading.sign
  return .sign found (← inner Sign.precedence)

/-- Reads an expression in parentheses. -/
def parenthesised (inner : Nat → Recording Expr) : Recording Expr := do
  let _ ← advance
  let found ← inner 0
  if (← current) = some .rightParen then
    let _ ← advance
    return found
  else throw .rightParenRequired

/-- Reads an operand. -/
def operand (inner : Nat → Recording Expr) : Recording Expr := call .operand do
  match ← current with
  | some (.number _) => atom
  | some (.text _) => atom
  | some (.name _) => atom
  | some (.operator .add) => signed inner
  | some (.operator .subtract) => signed inner
  | some .leftParen => parenthesised inner
  | front => throw (.ofTokens front.toList)

/-- Reads an operator and its right operand. -/
def operation (inner : Nat → Recording Expr) (left : Expr) (binding : Nat) : Recording Expr :=
  call (.operation binding) do
    let op ← silently Reading.operator
    return .binary left op (← inner binding)

/-- Reads every operator that binds more than the level, with its right operand. -/
def operators (inner : Nat → Recording Expr) (level : Nat) : Nat → Expr → Recording Expr
  | 0, _ => never
  | rounds + 1, left => do
    let binding ← silently Reading.strength
    if binding ≤ level then return left
    else operators inner level rounds (← operation inner left binding)

/-- Reads an operand and every operator after it that binds more than the level. -/
def expression : Nat → Nat → Recording Expr
  | 0, _ => never
  | depth + 1, level => call (.expression level) do
    operators (expression depth) level depth (← operand (expression depth))

/-- Reads a variable, an equals sign and an expression. -/
def assignment (depth : Nat) : Recording Statement := call .assignment do
  let name ← silently (Reading.identifier .LET)
  if (← current) = some (.operator .equal) then
    let _ ← advance
    return .assign name (← expression depth 0)
  else throw .equalRequired

/-- Reads the expressions after a comma, for as long as there is one. -/
def items (depth : Nat) : Nat → List Expr → Recording (List Expr)
  | 0, _ => never
  | rounds + 1, found => do
    if (← current) = some .comma then
      let _ ← advance
      items depth rounds (found ++ [← expression depth 0])
    else return found

/-- Reads `PRINT` and what it prints. -/
def print (depth : Nat) : Recording Statement := call .print do
  let _ ← advance
  if (← current) = none then return .print []
  else
    let first ← expression depth 0
    return .print (← items depth depth [first])

/-- Reads `THEN` and what follows it: a line number that is the last token, or else a statement. -/
def consequence (body : Recording Statement) (condition : Expr) : Recording Statement := do
  if (← current) = some (.keyword .THEN) then
    let _ ← advance
    match ← current, ← peek with
    | some (.number digits), none =>
      let line ← silently (Reading.target digits)
      let _ ← advance
      return .ifJump condition line
    | _, _ => return .ifThen condition (← body)
  else throw .consequenceRequired

/-- Reads `IF`, the condition, `THEN` and what follows it. -/
def conditional (depth : Nat) (body : Recording Statement) : Recording Statement :=
  call .conditional do
    let _ ← advance
    consequence body (← expression depth 0)

/-- Reads a statement. -/
def statement : Nat → Recording Statement
  | 0 => never
  | depth + 1 => call .statement do
    match ← current with
    | some (.keyword .REM) =>
      let _ ← advance
      return .comment
    | some (.keyword .LET) =>
      let _ ← advance
      assignment depth
    | some (.name word) =>
      if (← peek) = some (.operator .equal) then assignment depth
      else throw (.unexpectedName word)
    | some (.keyword .PRINT) => print depth
    | some (.keyword .INPUT) =>
      let _ ← advance
      return .input (← silently (Reading.identifier .INPUT))
    | some (.keyword .IF) => conditional depth (statement depth)
    | some (.keyword .GOTO) =>
      let _ ← advance
      return .jump (← silently (Reading.lineNumber .GOTO))
    | some (.keyword .END) =>
      let _ ← advance
      return .stop
    | front => throw (.ofTokens front.toList)

/-- Reads a statement that nothing may follow, unless it ends in a comment. -/
def whole (depth : Nat) : Recording Statement := do
  let found ← statement depth
  match ← current with
  | none => return found
  | some next => if found.endsInComment then return found else throw (.trailing next)

end Recording

/-! ## Readers that call nobody -/

section Tokens

variable {w : Window} {token : Token} {limit : Nat}

theorem ends_atom (h : w.current = some token) : Ends Reading.atom (Leaves w.remaining) w := by
  have hfewer := Window.remaining_shift_lt h
  refine .advance_bind ?_
  rw [h]
  cases token with
  | number digits =>
      dsimp only
      cases Expr.literal? digits with
      | none => exact .throw (Nat.le_of_lt hfewer)
      | some value => exact .pure hfewer
  | text content => exact .pure hfewer
  | name word => exact .pure hfewer
  | _ => exact .never

theorem ends_sign (h : w.current = some token) : Ends Reading.sign (Leaves w.remaining) w := by
  have hfewer := Window.remaining_shift_lt h
  refine .advance_bind ?_
  split
  · exact .pure hfewer
  · exact .pure hfewer

theorem ends_operator (h : w.current = some token) :
    Ends Reading.operator (Leaves w.remaining) w := by
  have hfewer := Window.remaining_shift_lt h
  refine .advance_bind ?_
  rw [h]
  cases token with
  | operator op => exact .pure hfewer
  | _ => exact .never

theorem ends_identifier (after : Keyword) (h : w.remaining ≤ limit) :
    Ends (Reading.identifier after) (Leaves limit) w := by
  refine .advance_bind ?_
  cases hfront : w.current with
  | none => exact .throw (Nat.le_trans w.remaining_shift_le h)
  | some token =>
      have hfewer := Nat.lt_of_lt_of_le (Window.remaining_shift_lt hfront) h
      cases token with
      | name word => exact .pure hfewer
      | _ => exact .throw (Nat.le_of_lt hfewer)

theorem ends_target (digits : String) (h : w.remaining < limit) :
    Ends (Reading.target digits) (Leaves limit) w := by
  unfold Reading.target
  cases LineNumber.ofDigits? digits.toList with
  | none => exact .throw (Nat.le_of_lt h)
  | some line => exact .pure h

theorem ends_lineNumber (after : Keyword) (h : w.remaining ≤ limit) :
    Ends (Reading.lineNumber after) (Leaves limit) w := by
  refine .advance_bind ?_
  cases hfront : w.current with
  | none => exact .throw (Nat.le_trans w.remaining_shift_le h)
  | some token =>
      have hfewer := Nat.lt_of_lt_of_le (Window.remaining_shift_lt hfront) h
      cases token with
      | number digits => exact ends_target digits hfewer
      | _ => exact .throw (Nat.le_of_lt hfewer)

end Tokens

/-! ## Expressions -/

/-- A reader of expressions makes one sound call at every window, and settles there. -/
def CallsExpression (inner : Nat → Reading Expr) (inner' : Nat → Recording Expr) : Prop :=
  ∀ level w, Records (Call.Fills ⟨.expression level, w⟩) (inner level) (inner' level)
    (Settles level w.remaining) w

section Expressions

variable {inner : Nat → Reading Expr} {inner' : Nat → Recording Expr} {outer : Frame}
  {v w : Window} {token : Token}

/-- A call that has taken a token may read an expression, and go on. -/
theorem CallsExpression.bind {α : Type} {level : Nat} {f : Expr → Reading α}
    {g : Expr → Recording α} (h : CallsExpression inner inner')
    (hv : v.remaining < outer.window.remaining)
    (hf : ∀ e later, later.remaining < outer.window.remaining →
      Records (Call.Under outer) (f e) (g e) (Leaves outer.window.remaining) later) :
    Records (Call.Under outer) (inner level >>= f) (inner' level >>= g)
      (Leaves outer.window.remaining) v := by
  have hcall := (h level v).mono (fun _ hfills => hfills) fun _ _ hsettles => hsettles.leaves
  exact (hcall.later hv).bind_leaves hf

/-- The operand behind a sign is read after the sign has been taken. -/
theorem records_signed (h : CallsExpression inner inner') (hfront : w.current = some token) :
    Records (Call.Under ⟨.operand, w⟩) (Reading.signed inner) (Recording.signed inner')
      (Leaves w.remaining) w := by
  refine .bind_leaves (.silently (ends_sign hfront)) fun found v hv => ?_
  exact h.bind hv fun e later hlater => .pure hlater

/-- So is the expression behind a parenthesis. -/
theorem records_parenthesised (h : CallsExpression inner inner')
    (hfront : w.current = some token) :
    Records (Call.Under ⟨.operand, w⟩) (Reading.parenthesised inner)
      (Recording.parenthesised inner') (Leaves w.remaining) w := by
  refine .advance_bind (h.bind (Window.remaining_shift_lt hfront) fun found later hlater => ?_)
  refine .current_bind (.ite (fun _ => .advance_bind (.pure ?_)) fun _ => .throw ?_)
  · exact Nat.lt_of_le_of_lt later.remaining_shift_le hlater
  · exact Nat.le_of_lt hlater

/-- A literal or a variable is called for where there is one. -/
theorem records_atom (hfront : w.current = some token) (hatom : token.isAtom) :
    Records (Call.Under ⟨.operand, w⟩) Reading.atom Recording.atom (Leaves w.remaining) w := by
  have hcall : Records (Call.Fills ⟨.atom, w⟩) Reading.atom Recording.atom
      (Leaves w.remaining) w :=
    .call_leaves ⟨token, hfront, hatom⟩ (fun _ => trivial) (.silently (ends_atom hfront))
  exact hcall.here Nat.one_pos

/-- Reading an operand is one sound call, wherever it is made. -/
theorem records_operand (h : CallsExpression inner inner') (w : Window) :
    Records (Call.Fills ⟨.operand, w⟩) (Reading.operand inner) (Recording.operand inner')
      (Leaves w.remaining) w := by
  refine .call_leaves trivial (fun _ => trivial) (.current_bind ?_)
  cases hfront : w.current with
  | none => exact .throw (Nat.le_refl _)
  | some token =>
      cases token with
      | number digits => exact records_atom hfront rfl
      | text content => exact records_atom hfront rfl
      | name word => exact records_atom hfront rfl
      | leftParen => exact records_parenthesised h hfront
      | operator op =>
          cases op with
          | add => exact records_signed h hfront
          | subtract => exact records_signed h hfront
          | _ => exact .throw (Nat.le_refl _)
      | _ => exact .throw (Nat.le_refl _)

/-- Looking at how strongly the token in front binds. -/
theorem Records.strength_bind {α : Type} {made : Call → Prop} {f : Nat → Reading α}
    {g : Nat → Recording α} {post : Except SyntaxError α → Window → Prop}
    (h : Records made (f w.strength) (g w.strength) post w) :
    Records made (Reading.strength >>= f) (Recording.silently Reading.strength >>= g) post w :=
  ⟨h.ends, h.recorded⟩

/-- What binds at all is an operator. -/
theorem exists_operator_of_strength (h : 0 < w.strength) :
    ∃ op, w.current = some (.operator op) ∧ op.precedence = w.strength := by
  unfold Window.strength at h ⊢
  cases hfront : w.current with
  | none =>
      rw [hfront] at h
      exact absurd h (Nat.lt_irrefl 0)
  | some token =>
      rw [hfront] at h
      cases token with
      | operator op => exact ⟨op, rfl, rfl⟩
      | _ => exact absurd h (Nat.lt_irrefl 0)

/-- So is reading an operator with its right operand, where the token in front binds. -/
theorem records_operation (h : CallsExpression inner inner') (left : Expr)
    (hbinds : 0 < w.strength) :
    Records (Call.Fills ⟨.operation w.strength, w⟩) (Reading.operation inner left w.strength)
      (Recording.operation inner' left w.strength) (Leaves w.remaining) w := by
  obtain ⟨op, hfront, hop⟩ := exists_operator_of_strength hbinds
  refine .call_leaves ⟨op, hfront, hop⟩ (fun _ => trivial) ?_
  refine .bind_leaves (.silently (ends_operator hfront)) fun op v hv => ?_
  exact h.bind hv fun right later hlater => .pure hlater

/-- Every round of the loop that goes on has made a call that has found something. -/
theorem records_operators (h : CallsExpression inner inner') (level : Nat) {rounds : Nat}
    (left : Expr) (hv : v.remaining < outer.window.remaining) :
    Records (Call.Under outer) (Reading.operators inner level rounds left)
      (Recording.operators inner' level rounds left) (Settles level outer.window.remaining) v := by
  induction rounds generalizing left v with
  | zero => exact .never
  | succ rounds ih =>
      refine .strength_bind (.ite (fun hlevel => .pure ⟨hv, hlevel⟩) fun hlevel => ?_)
      have hbinds := Nat.zero_lt_of_lt (Nat.not_le.mp hlevel)
      have hoperation := (records_operation h left hbinds).later hv
      exact hoperation.bind (fun e later hlater => ih e hlater) fun _ _ herror => herror

/-- So is reading an expression, to every depth. Its operand is called for where the expression
begins, and every operation after that. -/
theorem records_expression (depth : Nat) :
    CallsExpression (Reading.expression depth) (Recording.expression depth) := by
  induction depth with
  | zero => exact fun _ _ => .never
  | succ depth ih =>
      intro level w
      refine .call trivial (fun _ _ hsettles => ⟨hsettles.leaves, hsettles.settled⟩) ?_
      refine .bind ((records_operand ih w).here Nat.one_lt_two) (fun left later hlater => ?_)
        fun _ _ herror => herror
      exact records_operators ih level left hlater

end Expressions

/-! ## Statements -/

section Statements

variable {depth : Nat} {outer : Frame} {v w : Window} {token : Token}

/-- Reading an assignment is one sound call, and its value is read behind the equals sign. -/
theorem records_assignment (depth : Nat) (w : Window) :
    Records (Call.Fills ⟨.assignment, w⟩) (Reading.assignment depth)
      (Recording.assignment depth) (Leaves w.remaining) w := by
  refine .call_leaves trivial (fun _ => trivial) ?_
  refine .bind_leaves (.silently (ends_identifier .LET (Nat.le_refl _))) fun name v hv => ?_
  refine .current_bind (.ite (fun _ => .advance_bind ?_) fun _ => .throw (Nat.le_of_lt hv))
  have hshift := Nat.lt_of_le_of_lt v.remaining_shift_le hv
  exact (records_expression depth).bind hshift fun value later hlater => .pure hlater

/-- Every round of the loop that goes on has made a call that has found something. -/
theorem records_items {rounds : Nat} (found : List Expr)
    (hv : v.remaining < outer.window.remaining) :
    Records (Call.Under outer) (Reading.items depth rounds found)
      (Recording.items depth rounds found) (Leaves outer.window.remaining) v := by
  induction rounds generalizing found v with
  | zero => exact .never
  | succ rounds ih =>
      refine .current_bind (.ite (fun _ => .advance_bind ?_) fun _ => .pure hv)
      have hshift := Nat.lt_of_le_of_lt v.remaining_shift_le hv
      exact (records_expression depth).bind hshift fun item later hlater => ih _ hlater

/-- At the end of the source nothing is printed and the keyword is all that is taken. So it matters
that the keyword is there. -/
theorem records_print (depth : Nat) (hfront : w.current = some (.keyword .PRINT)) :
    Records (Call.Fills ⟨.print, w⟩) (Reading.print depth) (Recording.print depth)
      (Leaves w.remaining) w := by
  have hshift := Window.remaining_shift_lt hfront
  refine .call_leaves hfront (fun _ => trivial) ?_
  refine .advance_bind (.current_bind (.ite (fun _ => .pure hshift) fun _ => ?_))
  refine (records_expression depth).bind hshift fun first v hv => ?_
  exact (records_items [first] hv).bind_leaves fun items later hlater => .pure hlater

/-- What is called at every window makes one sound call of the reader of statements there. -/
def CallsStatement (body : Reading Statement) (body' : Recording Statement) : Prop :=
  ∀ w, Records (Call.Fills ⟨.statement, w⟩) body body' (Leaves w.remaining) w

/-- A condition has been read, so the statement behind it has fewer tokens than the whole. -/
theorem records_consequence {body : Reading Statement} {body' : Recording Statement}
    (h : CallsStatement body body') (condition : Expr) (hv : v.remaining < outer.window.remaining) :
    Records (Call.Under outer) (Reading.consequence body condition)
      (Recording.consequence body' condition) (Leaves outer.window.remaining) v := by
  have hshift := Nat.lt_of_le_of_lt v.remaining_shift_le hv
  have hbody := (h v.shift).later hshift
  have hstatement := hbody.bind_leaves (f := fun found => pure (Statement.ifThen condition found))
    (g := fun found => pure (Statement.ifThen condition found)) fun _ _ hlater => .pure hlater
  refine .current_bind (.ite (fun _ => .advance_bind ?_) fun _ => .throw (Nat.le_of_lt hv))
  refine .current_bind (.peek_bind ?_)
  -- A number that is the last token is the target of a jump.
  cases hfront : v.shift.current with
  | none => exact hstatement
  | some token =>
      cases token with
      | number digits =>
          cases v.shift.peek with
          | none =>
              have htarget := ends_target digits hshift
              refine .bind_leaves (.silently htarget) fun line later hlater => ?_
              exact .advance_bind (.pure (Nat.lt_of_le_of_lt later.remaining_shift_le hlater))
          | some next => exact hstatement
      | _ => exact hstatement

/-- The condition is read behind the keyword, which has to be there. -/
theorem records_conditional {body : Reading Statement} {body' : Recording Statement}
    (h : CallsStatement body body') (depth : Nat) (hfront : w.current = some (.keyword .IF)) :
    Records (Call.Fills ⟨.conditional, w⟩) (Reading.conditional depth body)
      (Recording.conditional depth body') (Leaves w.remaining) w := by
  refine .call_leaves hfront (fun _ => trivial) (.advance_bind ?_)
  refine (records_expression depth).bind (Window.remaining_shift_lt hfront) ?_
  exact fun condition later hlater => records_consequence h condition hlater

/-- Reading a statement is one sound call, to every depth and wherever it is made. -/
theorem records_statement (depth : Nat) :
    CallsStatement (Reading.statement depth) (Recording.statement depth) := by
  induction depth with
  | zero => exact fun _ => .never
  | succ depth ih =>
      intro w
      refine .call_leaves trivial (fun _ => trivial) (.current_bind ?_)
      cases hfront : w.current with
      | none => exact .throw (Nat.le_refl _)
      | some token =>
          have hshift := Window.remaining_shift_lt hfront
          cases token with
          | name word =>
              refine .peek_bind (.ite (fun _ => ?_) fun _ => .throw (Nat.le_refl _))
              exact (records_assignment depth w).here Nat.one_lt_two
          | keyword k =>
              cases k with
              | REM => exact .advance_bind (.pure hshift)
              | LET =>
                  exact .advance_bind ((records_assignment depth w.shift).later hshift)
              | PRINT => exact (records_print depth hfront).here Nat.one_lt_two
              | INPUT =>
                  have hname := ends_identifier .INPUT (Nat.le_of_lt hshift)
                  exact .advance_bind (.bind_leaves (.silently hname) fun _ _ hv => .pure hv)
              | IF => exact (records_conditional ih depth hfront).here Nat.one_lt_two
              | GOTO =>
                  have hline := ends_lineNumber .GOTO (Nat.le_of_lt hshift)
                  exact .advance_bind (.bind_leaves (.silently hline) fun _ _ hv => .pure hv)
              | END => exact .advance_bind (.pure hshift)
              | _ => exact .throw (Nat.le_refl _)
          | _ => exact .throw (Nat.le_refl _)

/-- The test for what follows makes no call and takes no token. -/
theorem records_whole (depth : Nat) (w : Window) :
    Records (Call.Fills ⟨.statement, w⟩) (Reading.whole depth) (Recording.whole depth)
      (Leaves w.remaining) w := by
  refine (records_statement depth w).bind_leaves fun found v hv => .current_bind ?_
  cases v.current with
  | none => exact .pure hv
  | some next => exact .ite (fun _ => .pure hv) fun _ => .throw (Nat.le_of_lt hv)

end Statements

/-! ## Attempts -/

namespace StreamParser

/-- Reads one statement, with a record of the calls. -/
def record (depth : Nat) (p : StreamParser) :
    Option ((Option Statement × StreamParser) × List Call) :=
  ((Recording.whole depth).outcome p.window []).map fun found =>
    (conclude p.errors (found.1, found.2.1), found.2.2)

/-- An attempt with a record does what an attempt does, and the calls are sound. -/
theorem exists_record (depth : Nat) (p : StreamParser) :
    ∃ calls, (∀ call ∈ calls, call.Sound) ∧
      p.record depth = (p.parseStatement depth).map fun last => (last, calls) := by
  obtain ⟨-, calls, hcalls, hrecorded⟩ := records_whole depth p.window
  refine ⟨calls, fun call hcall => (hcalls call hcall).2, ?_⟩
  rw [record, hrecorded, parseStatement, Option.map_map, Option.map_map]
  rfl

/-- After any number of attempts on a source, one more comes to an end if it may go deeper than
there are tokens still to come, and finds what a parser with all the tokens finds. So it never gets
to where a reader is not meant to get.

Every call made on the way is sound: with what it has found it leaves fewer tokens than there were,
and otherwise no more; an expression stops in front of what does not bind more than its level; an
operation begins with an operator, and an atom with a literal or a variable. Calls made in one
another begin ever lower in an order without an endless descent. -/
theorem attempts_progress (source : String) (n : Nat) {depth : Nat}
    (hdepth : (Token.ofText source.toList).length < depth) :
    WellFounded Frame.Below ∧
      ∃ found p, (ofSource source).attempts depth n = some (found, p) ∧
        found = ((Parser.ofText source.toList).attempts n).1 ∧
        ∀ limit, p.window.remaining < limit → ∃ last later calls,
          p.parseStatement limit = some (last, later) ∧
          last = ((Parser.ofText source.toList).attempts n).2.parseStatement.1 ∧
          p.record limit = some ((last, later), calls) ∧ ∀ call ∈ calls, call.Sound := by
  refine ⟨Frame.below_wellFounded, ?_⟩
  obtain ⟨p, hp, hmirrors, -⟩ := attempts_of_mirrors (mirrors_ofSource source) hdepth n
  refine ⟨_, p, hp, rfl, fun limit hlimit => ?_⟩
  rw [hmirrors.tokens.remaining_eq] at hlimit
  obtain ⟨later, hlater, -, -⟩ := parseStatement_of_mirrors hmirrors hlimit
  obtain ⟨calls, hcalls, hrecord⟩ := p.exists_record limit
  rw [hlater] at hrecord
  exact ⟨_, later, calls, hlater, rfl, hrecord, hcalls⟩

/-- The first attempt fails within the parentheses, in front of the second `PRINT`. The next one
goes on from there with seven tokens, and finds a statement with two expressions. -/
theorem attempts_progress_resumed :
    (Token.ofText "PRINT (1 + PRINT -2 * 3, A$".toList).length < 12 ∧
      ∃ p last later calls,
        (ofSource "PRINT (1 + PRINT -2 * 3, A$").attempts 12 1 = some ([none], p) ∧
        p.window.remaining = 7 ∧ p.record 8 = some ((last, later), calls) ∧ last.isSome ∧
        (((calls.flatMap Call.inner).flatMap Call.inner).map fun call =>
          (call.frame.routine, call.frame.window.remaining, call.after.remaining)) =
            [(.expression 0, 6, 2), (.expression 0, 1, 0)] ∧
        ∀ call ∈ calls, call.Sound := by
  have hdepth : (Token.ofText "PRINT (1 + PRINT -2 * 3, A$".toList).length < 12 := by
    decide +kernel
  have hfound : ((Parser.ofText "PRINT (1 + PRINT -2 * 3, A$".toList).attempts 1).1 = [none] := by
    decide +kernel
  have hremaining : (((ofSource "PRINT (1 + PRINT -2 * 3, A$").attempts 12 1).map fun left =>
      left.2.window.remaining) = some 7 := by decide +kernel
  have hrecord : (((ofSource "PRINT (1 + PRINT -2 * 3, A$").attempts 12 1).bind fun left =>
      left.2.record 8).map (fun found => (found.1.1.isSome,
        ((found.2.flatMap Call.inner).flatMap Call.inner).map fun call =>
          (call.frame.routine, call.frame.window.remaining, call.after.remaining))) =
      some (true, [(.expression 0, 6, 2), (.expression 0, 1, 0)]) := by
    decide +kernel
  obtain ⟨-, found, p, hp, hlist, hlater⟩ := attempts_progress _ 1 hdepth
  rw [hfound] at hlist
  subst hlist
  rw [hp, Option.map_some, Option.some.injEq] at hremaining
  obtain ⟨last, later, calls, -, -, hcalls, hsound⟩ := hlater 8 (by rw [hremaining]; decide)
  rw [hp, Option.bind_some, hcalls, Option.map_some, Option.some.injEq] at hrecord
  injection hrecord with hsome hinner
  exact ⟨hdepth, p, last, later, calls, hp, hremaining, hcalls, hsome, hinner, hsound⟩

end StreamParser

end LineBasic
