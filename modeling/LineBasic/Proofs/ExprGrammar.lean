import LineBasic.Proofs.Grammar
import LineBasic.Proofs.Reply

/-!
# Expressions are read as the grammar derives them

Reading by numeric binding strength and deriving by strata agree. The reader at a level finds the
longest chain of the stratum that belongs to the level, and stops at a token that binds no more than
the level.

Both directions need a statement about the reader of operators in mid-chain. While a chain of
stratum `ofLevel k` has been read, the next token binds at most `k + 1`: the last operand was read
above the last operator, so it took every operator that binds more. Hence whatever operator comes
next, the chain read so far is a chain of that operator's stratum, and this is how left grouping
comes about.

## Main results

* `read_sound`: what is read derives from the tokens taken;
* `read_complete`: what derives is read, and nothing after it.
-/

namespace LineBasic

/-- How strongly the first of some tokens binds what is in front of it. -/
def headPrecedence : List Token → Nat
  | [] => 0
  | token :: _ => token.precedence

/-- What is no operator does not bind. -/
theorem headPrecedence_eq_zero {tokens : List Token}
    (h : ∀ op rest, tokens = .operator op :: rest → False) : headPrecedence tokens = 0 := by
  cases tokens with
  | nil => rfl
  | cons token rest =>
      cases token with
      | operator op => exact absurd rfl (h op rest)
      | _ => rfl

namespace Stratum

/-- The stratum of the chains that are read at a level. -/
def ofLevel : Nat → Stratum
  | 0 => comparison
  | 1 => sum
  | 2 => product
  | _ => signed

/-- The greatest level at which chains of a stratum are read whole. -/
def tightness : Stratum → Nat
  | comparison => 0
  | sum => 1
  | product => 2
  | signed | operand => Sign.precedence

theorem tightness_le_member (s : Stratum) : s.tightness ≤ s.member.tightness := by
  cases s <;> decide

theorem precedence_of_mem {s : Stratum} {op : Operator} (h : op ∈ s.operators) :
    op.precedence = s.tightness + 1 := by
  cases s <;> simp only [operators, List.mem_cons, List.not_mem_nil, or_false] at h
  case comparison => rcases h with rfl | rfl | rfl | rfl | rfl | rfl <;> rfl
  case sum => rcases h with rfl | rfl <;> rfl
  case product => rcases h with rfl | rfl <;> rfl

theorem precedence_le_member {s : Stratum} {op : Operator} (h : op ∈ s.operators) :
    op.precedence ≤ s.member.tightness := by
  rw [precedence_of_mem h]
  cases s with
  | comparison => exact Nat.le_refl 1
  | sum => exact Nat.le_refl 2
  | product => exact (by decide : 3 ≤ Sign.precedence)
  | signed => simp [operators] at h
  | operand => simp [operators] at h

theorem mem_operators_ofLevel (op : Operator) :
    op ∈ (ofLevel (op.precedence - 1)).operators := by
  cases op <;> decide

theorem member_ofLevel (op : Operator) :
    (ofLevel (op.precedence - 1)).member = ofLevel op.precedence := by
  cases op <;> rfl

end Stratum

theorem Operator.precedence_le (op : Operator) : op.precedence ≤ 3 := by
  cases op <;> decide

theorem headPrecedence_le (tokens : List Token) : headPrecedence tokens ≤ 3 := by
  cases tokens with
  | nil => exact Nat.zero_le 3
  | cons token rest =>
      cases token with
      | operator op => exact op.precedence_le
      | _ => exact Nat.zero_le 3

namespace Expr

open Stratum

/-! ## Strata of levels -/

/-- A chain of one level is a chain of the level below. -/
theorem Derives.loosen_one {k : Nat} {tokens : List Token} {e : Expr}
    (h : Derives (ofLevel (k + 1)) tokens e) : Derives (ofLevel k) tokens e := by
  match k with
  | 0 => exact .member h
  | 1 => exact .member h
  | 2 => exact .member h
  | _ + 3 => exact h

/-- A chain of one level is a chain of every level below. -/
theorem Derives.loosen {j k : Nat} {tokens : List Token} {e : Expr} (hjk : j ≤ k)
    (h : Derives (ofLevel k) tokens e) : Derives (ofLevel j) tokens e := by
  induction hjk with
  | refl => exact h
  | step _ ih => exact ih h.loosen_one

/-- A chain that an operator follows, and the operator's right operand, are a chain of the level
below the operator. -/
theorem Derives.operator {k : Nat} {before after : List Token} {left right : Expr} {op : Operator}
    (hop : op.precedence ≤ k + 1) (hleft : Derives (ofLevel k) before left)
    (hright : Derives (ofLevel op.precedence) after right) :
    Derives (ofLevel (op.precedence - 1)) (before ++ .operator op :: after)
      (.binary left op right) := by
  have hbefore : Derives (ofLevel (op.precedence - 1)) before left :=
    hleft.loosen (by omega)
  rw [← member_ofLevel] at hright
  exact .chain (mem_operators_ofLevel op) hbefore hright

/-! ## What is read derives -/

/-- What a literal's digits denote is what they are read as. -/
theorem literal?_eq_some_iff {digits : String} {value : Float} :
    literal? digits = some value ↔ DenotesValue digits value := by
  unfold literal? DenotesValue
  cases hn : Numeral.ofLiteral? digits.toList with
  | none => simp
  | some n =>
      by_cases hword : n.word = Binary64.infinity
      · simp [Binary64.Datum.ofNumeral, hword]
      · simp only [Option.map_some, Binary64.Datum.ofNumeral, hword, if_false, Option.some.injEq,
          exists_eq_left', ne_eq, not_false_eq_true, true_and]
        exact eq_comm

/-- The tokens that the reader of operands takes derive its operand. -/
def OperandSound (tokens : List Token) : Prop :=
  ∀ e rest, (readOperand tokens).Gives e rest →
    ∃ taken, tokens = taken ++ rest ∧ Derives .signed taken e

/-- The tokens that the reader at a level takes derive its expression, and the reader has stopped
at a token that does not bind more. -/
def AboveSound (level : Nat) (tokens : List Token) : Prop :=
  ∀ e rest, (readAbove level tokens).Gives e rest →
    ∃ taken, tokens = taken ++ rest ∧ Derives (ofLevel level) taken e ∧
      headPrecedence rest ≤ level

/-- The same for the reader of operators, behind the tokens of a left operand. -/
def OperatorsSound (level : Nat) (left : Expr) (tokens : List Token) : Prop :=
  ∀ k before e rest, level ≤ k → headPrecedence tokens ≤ k + 1 →
    Derives (ofLevel k) before left → (readOperators level left tokens).Gives e rest →
      ∃ taken, tokens = taken ++ rest ∧ Derives (ofLevel level) (before ++ taken) e ∧
        headPrecedence rest ≤ level

/-- A signed operand is read above every operator, so it is no longer chain. -/
private theorem AboveSound.signed {tokens rest : List Token} {e : Expr}
    (h : AboveSound Sign.precedence tokens)
    (hread : (readAbove Sign.precedence tokens).Gives e rest) :
    ∃ taken, tokens = taken ++ rest ∧ Derives .signed taken e := by
  obtain ⟨taken, htaken, hderives, -⟩ := h e rest hread
  exact ⟨taken, htaken, hderives⟩

private theorem gives_closeParen {inner e : Expr} {tokens rest : List Token}
    (h : (closeParen inner tokens).Gives e rest) :
    inner = e ∧ tokens = .rightParen :: rest := by
  unfold closeParen at h
  split at h
  · simpa using h
  · simp at h

private theorem operandSound_of_single {token : Token} {rest : List Token} {e : Expr}
    (hread : ∀ {found left}, (readOperand (token :: rest)).Gives found left →
      e = found ∧ rest = left)
    (hderives : Derives .operand [token] e) : OperandSound (token :: rest) := by
  intro found left h
  obtain ⟨rfl, rfl⟩ := hread h
  exact ⟨[token], rfl, .member hderives⟩

/-- An operand and the operators behind it are read soundly if both are. -/
private theorem AboveSound.of_operand {level : Nat} {tokens after : List Token} {inner : Expr}
    {fewer : after.length < tokens.length} (hinner : readOperand tokens = .done inner after fewer)
    (ihOperand : OperandSound tokens) (ihOperators : OperatorsSound level inner after) :
    AboveSound level tokens := by
  intro e rest h
  rw [readAbove, hinner] at h
  obtain ⟨taken, rfl, hderives⟩ := ihOperand inner after ⟨fewer, hinner⟩
  -- An operand is a chain of the tightest level, and a fortiori of the level at hand.
  obtain ⟨more, rfl, hmore, hstop⟩ := ihOperators (level + 3) taken e rest (by omega)
    (Nat.le_trans (headPrecedence_le after) (by omega)) hderives (by simpa using h)
  exact ⟨taken ++ more, by simp, hmore, hstop⟩

/-- An operator that binds more than the level makes one chain of what stands on its sides. -/
private theorem OperatorsSound.of_operator {level : Nat} {left right : Expr} {op : Operator}
    {rest after : List Token} {fewer : after.length < rest.length} (hlevel : level < op.precedence)
    (hright : readAbove op.precedence rest = .done right after fewer)
    (ihAbove : AboveSound op.precedence rest)
    (ihOperators : OperatorsSound level (.binary left op right) after) :
    OperatorsSound level left (.operator op :: rest) := by
  intro k before e final hk hhead hbefore h
  rw [readOperators, if_pos hlevel, hright] at h
  obtain ⟨taken, rfl, hderives, hnext⟩ := ihAbove right after ⟨fewer, hright⟩
  have hchain := Derives.operator hhead hbefore hderives
  obtain ⟨more, rfl, hmore, hstop⟩ := ihOperators (op.precedence - 1) _ e final (by omega)
    (by omega) hchain (by simpa using h)
  exact ⟨.operator op :: (taken ++ more), by simp, by simpa using hmore, hstop⟩

/-- Where the reader of operators stops, the chain is complete. -/
private theorem OperatorsSound.of_stop {level : Nat} {left : Expr} {tokens : List Token}
    (hread : readOperators level left tokens = .leaving left tokens)
    (hhead : headPrecedence tokens ≤ level) : OperatorsSound level left tokens := by
  intro k before e final hk _ hbefore h
  rw [hread] at h
  obtain ⟨rfl, rfl⟩ : left = e ∧ tokens = final := by simpa using h
  exact ⟨[], rfl, by simpa using hbefore.loosen hk, hhead⟩

/-- Every reader takes tokens that derive what it finds. -/
theorem sound_all :
    (∀ tokens, OperandSound tokens) ∧ (∀ level tokens, AboveSound level tokens) ∧
      ∀ level left tokens, OperatorsSound level left tokens := by
  refine readOperand.mutual_induct OperandSound AboveSound OperatorsSound
    ?number ?invalid ?text ?name ?plus ?minus ?parens ?unclosed ?other
    ?above ?noOperand ?operator ?noRight ?weak ?stop
  case number =>
    intro digits rest value hvalue
    refine operandSound_of_single ?_ (.number (literal?_eq_some_iff.mp hvalue))
    intro found left h
    rw [readOperand, hvalue] at h
    simpa using h
  case invalid =>
    intro digits rest hvalue found left h
    rw [readOperand, hvalue] at h
    simp at h
  case text =>
    intro content rest
    refine operandSound_of_single ?_ .text
    intro found left h
    rw [readOperand] at h
    simpa using h
  case name =>
    intro word rest
    refine operandSound_of_single ?_ .name
    intro found left h
    rw [readOperand] at h
    simpa using h
  case plus =>
    intro rest ih found left h
    rw [readOperand] at h
    obtain ⟨e, he, rfl⟩ : ∃ e, (readAbove Sign.precedence rest).Gives e left ∧
        sign .plus e = found := by simpa using h
    obtain ⟨taken, rfl, hderives⟩ := ih.signed he
    exact ⟨.operator .add :: taken, rfl, .plus hderives⟩
  case minus =>
    intro rest ih found left h
    rw [readOperand] at h
    obtain ⟨e, he, rfl⟩ : ∃ e, (readAbove Sign.precedence rest).Gives e left ∧
        sign .minus e = found := by simpa using h
    obtain ⟨taken, rfl, hderives⟩ := ih.signed he
    exact ⟨.operator .subtract :: taken, rfl, .minus hderives⟩
  case parens =>
    intro rest inner after fewer hinner ih found left h
    rw [readOperand, hinner] at h
    obtain ⟨rfl, rfl⟩ := gives_closeParen (by simpa using h)
    obtain ⟨taken, rfl, hderives, -⟩ := ih inner _ ⟨fewer, hinner⟩
    have hparens : Derives signed.member (.leftParen :: (taken ++ [.rightParen])) inner :=
      .parens hderives
    exact ⟨.leftParen :: (taken ++ [.rightParen]), by simp, .member hparens⟩
  case unclosed =>
    intro rest error after noMore hinner _ found left h
    rw [readOperand, hinner] at h
    simp at h
  case other =>
    intro tokens hnumber htext hname hadd hsubtract hparen found left h
    rw [readOperand.eq_7 tokens hnumber htext hname hadd hsubtract hparen] at h
    simp at h
  case above =>
    intro level tokens inner after fewer hinner ihOperand ihOperators
    exact .of_operand hinner ihOperand ihOperators
  case noOperand =>
    intro level tokens error after noMore hinner _ e rest h
    rw [readAbove, hinner] at h
    simp at h
  case operator =>
    intro level left op rest hlevel right after fewer hright ihAbove ihOperators
    exact .of_operator hlevel hright ihAbove ihOperators
  case noRight =>
    intro level left op rest hlevel error after noMore hright _ k before e final _ _ _ h
    rw [readOperators, if_pos hlevel, hright] at h
    simp at h
  case weak =>
    intro level left op rest hlevel
    exact .of_stop (by rw [readOperators, if_neg hlevel]) (Nat.not_lt.mp hlevel)
  case stop =>
    intro level left tokens hoperator
    refine .of_stop (readOperators.eq_2 level left tokens hoperator) ?_
    rw [headPrecedence_eq_zero hoperator]
    exact Nat.zero_le level

/-- What is read derives from the tokens taken, and the next token is no operator. -/
theorem read_sound {tokens rest : List Token} {e : Expr} (h : (read tokens).Gives e rest) :
    ∃ taken, tokens = taken ++ rest ∧ Derives .comparison taken e ∧ headPrecedence rest = 0 := by
  obtain ⟨taken, htaken, hderives, hstop⟩ := sound_all.2.1 0 tokens e rest h
  exact ⟨taken, htaken, hderives, Nat.le_zero.mp hstop⟩

/-! ## What derives is read -/

/-- The reader of operators takes nothing if the next token binds no more than the level. -/
theorem readOperators_stop {level : Nat} {e : Expr} {rest : List Token}
    (h : headPrecedence rest ≤ level) : (readOperators level e rest).Gives e rest := by
  cases rest with
  | nil =>
      rw [readOperators]
      · exact Reply.gives_leaving e []
      · intro op later hcons
        cases hcons
  | cons token rest =>
      cases token with
      | operator op =>
          have hop : op.precedence ≤ level := h
          rw [readOperators, if_neg (Nat.not_lt.mpr hop)]
          exact Reply.gives_leaving e _
      | _ =>
          rw [readOperators]
          · exact Reply.gives_leaving e _
          · intro op later hcons
            cases hcons

/-- What is read at a level is an operand with the operators after it. -/
theorem readAbove_gives {level : Nat} {tokens rest final : List Token} {e found : Expr}
    (hoperand : (readOperand tokens).Gives e rest)
    (hoperators : (readOperators level e rest).Gives found final) :
    (readAbove level tokens).Gives found final := by
  obtain ⟨fewer, hoperand⟩ := hoperand
  rw [readAbove, hoperand]
  simpa using hoperators

/-- The reader of operators takes an operator that binds more than the level, with what is read
above the operator. -/
theorem readOperators_gives {level : Nat} {op : Operator} {tokens rest final : List Token}
    {left right found : Expr} (hlevel : level < op.precedence)
    (hright : (readAbove op.precedence tokens).Gives right rest)
    (hoperators : (readOperators level (.binary left op right) rest).Gives found final) :
    (readOperators level left (.operator op :: tokens)).Gives found final := by
  obtain ⟨fewer, hright⟩ := hright
  rw [readOperators, if_pos hlevel, hright]
  simpa using hoperators

/-- The tokens of an expression of a stratum are read whole, at each level up to the stratum's and
in front of every token that binds no more than the stratum's operators: whatever the reader of
operators makes of the rest, the reader at the level makes of it all. -/
def Complete (s : Stratum) (tokens : List Token) (e : Expr) : Prop :=
  ∀ level rest found final, level ≤ s.tightness → headPrecedence rest ≤ s.tightness + 1 →
    (readOperators level e rest).Gives found final →
      (readAbove level (tokens ++ rest)).Gives found final

/-- A whole expression is read alone if nothing after it binds more than the level. -/
theorem Complete.gives {s : Stratum} {level : Nat} {tokens rest : List Token} {e : Expr}
    (h : Complete s tokens e) (hlevel : level ≤ s.tightness) (hrest : headPrecedence rest ≤ level) :
    (readAbove level (tokens ++ rest)).Gives e rest :=
  h level rest e rest hlevel (by omega) (readOperators_stop hrest)

/-- An operand is complete at every level. -/
theorem complete_of_readOperand {s : Stratum} {tokens : List Token} {e : Expr}
    (h : ∀ rest, (readOperand (tokens ++ rest)).Gives e rest) : Complete s tokens e :=
  fun _ rest _ _ _ _ hoperators => readAbove_gives (h rest) hoperators

/-- A signed operand is read by its own reader, above every operator. -/
private theorem Complete.signed {tokens : List Token} {e : Expr} (h : Complete .signed tokens e)
    (rest : List Token) : (readAbove Sign.precedence (tokens ++ rest)).Gives e rest :=
  h.gives (Nat.le_refl _) (Nat.le_trans (headPrecedence_le rest) (by decide))

theorem Derives.complete {s : Stratum} {tokens : List Token} {e : Expr}
    (h : Derives s tokens e) : Complete s tokens e := by
  induction h with
  | @member s tokens e _ ih =>
      intro level rest found final hlevel hrest hoperators
      have htighter := s.tightness_le_member
      exact ih level rest found final (by omega) (by omega) hoperators
  | @chain s before after left right op hop _ _ ihLeft ihRight =>
      intro level rest found final hlevel hrest hoperators
      have hprecedence := precedence_of_mem hop
      have hmember := precedence_le_member hop
      have hright : (readAbove op.precedence (after ++ rest)).Gives right rest :=
        ihRight.gives hmember (by omega)
      rw [List.append_assoc]
      refine ihLeft level _ found final hlevel (Nat.le_of_eq hprecedence) ?_
      exact readOperators_gives (by omega) hright hoperators
  | plus _ ih =>
      refine complete_of_readOperand fun rest => ?_
      rw [List.cons_append, readOperand]
      simpa using ih.signed rest
  | minus _ ih =>
      refine complete_of_readOperand fun rest => ?_
      rw [List.cons_append, readOperand]
      simpa using ih.signed rest
  | number hvalue =>
      refine complete_of_readOperand fun rest => ?_
      rw [List.cons_append, readOperand, literal?_eq_some_iff.mpr hvalue]
      exact Reply.gives_leaving _ rest
  | text =>
      refine complete_of_readOperand fun rest => ?_
      rw [List.cons_append, readOperand]
      exact Reply.gives_leaving _ rest
  | name =>
      refine complete_of_readOperand fun rest => ?_
      rw [List.cons_append, readOperand]
      exact Reply.gives_leaving _ rest
  | @parens tokens e _ ih =>
      refine complete_of_readOperand fun rest => ?_
      obtain ⟨fewer, hinner⟩ : (readAbove 0 (tokens ++ .rightParen :: rest)).Gives e
          (.rightParen :: rest) := ih.gives (Nat.le_refl 0) (Nat.le_refl 0)
      have hshape : Token.leftParen :: (tokens ++ [.rightParen]) ++ rest
          = .leftParen :: (tokens ++ .rightParen :: rest) := by simp
      rw [hshape, readOperand, hinner]
      simp [closeParen]

/-- The tokens of an expression are read whole in front of a token that is no operator. -/
theorem read_complete {tokens rest : List Token} {e : Expr} (h : Derives .comparison tokens e)
    (hrest : headPrecedence rest = 0) : (read (tokens ++ rest)).Gives e rest :=
  h.complete.gives (Nat.le_refl 0) (Nat.le_of_eq hrest)

/-- The tokens of an expression are read whole where nothing follows them. -/
theorem read_complete_all {tokens : List Token} {e : Expr} (h : Derives .comparison tokens e) :
    (read tokens).Gives e [] := by
  have hread : (read (tokens ++ [])).Gives e [] := read_complete h rfl
  rwa [List.append_nil] at hread

end Expr

end LineBasic
