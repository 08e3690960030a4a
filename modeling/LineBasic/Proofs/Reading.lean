import LineBasic.Proofs.Munching
import LineBasic.Proofs.StatementGrammar

/-!
# What is read is well formed

Every text that is read as a statement yields a well-formed one. The tokens of any text carry only
names and string literals that a text can hold, a literal's value is finite and without a sign, and
a target is a line number; a derivation builds its statement out of nothing else.

## Main results

* `Token.lexical_of_mem_ofText`: the tokens of a text are such as texts can hold;
* `Statement.wellFormed_of_ofText`: the statement of a text is well formed.
-/

namespace LineBasic

/-! ## The tokens of a text -/

/-- A token whose text, if it is a name or a string literal, can be written again. -/
def Token.Lexical : Token → Prop
  | .name word => IsName word
  | .text content => IsQuotable content
  | _ => True

/-- A token that was cut off somewhere can be written again: its name is a word in upper case, and
its literal has been closed. -/
theorem Token.Munched.lexical {rest text : List Char} {token : Token}
    (h : token.Munched rest text) : token.Lexical := by
  cases token with
  | name word =>
      obtain ⟨hword, hupper, hname⟩ := h
      exact ⟨hupper ▸ hword.isWord, hname⟩
  | text content => exact h.1
  | _ => trivial

/-- The tokens of a text can be written again. -/
theorem Token.lexical_of_mem_ofText {text : List Char} {token : Token}
    (h : token ∈ Token.ofText text) : token.Lexical := by
  obtain ⟨rest, lexeme, hmunched⟩ := Token.munched_of_mem_ofText h
  exact hmunched.lexical

/-! ## Literals and line numbers -/

/-- No numeral's word exceeds that of infinity. -/
theorem Numeral.word_le_infinity (n : Numeral) : n.word ≤ Binary64.infinity := by
  have hnearest (num den : Nat) : Binary64.nearest num den ≤ Binary64.infinity := by
    unfold Binary64.nearest Binary64.wordAtScale
    exact Nat.min_le_left _ _
  unfold Numeral.word
  split
  · exact Nat.zero_le _
  · split
    · split
      · exact Nat.le_refl _
      · exact hnearest _ _
    · dsimp only
      split
      · exact Nat.zero_le _
      · exact hnearest _ _

/-- The value of a literal is finite and has no sign. -/
theorem DenotesValue.isUnsigned {digits : String} {value : Float}
    (h : DenotesValue digits value) : IsUnsigned value := by
  obtain ⟨n, -, hfinite, rfl⟩ := h
  have hlt : n.word < Binary64.infinity := Nat.lt_of_le_of_ne n.word_le_infinity hfinite
  exact ⟨n.word, Binary64.ofFloat_toFloat_finite hlt⟩

theorem DenotesLine.valid {digits : String} {line : LineNumber} (h : DenotesLine digits line) :
    line.Valid := ⟨h.positive, h.bounded⟩

/-! ## Derivations -/

theorem Expr.Derives.wellFormed {s : Stratum} {tokens : List Token} {e : Expr}
    (h : Derives s tokens e) (hlexical : ∀ token ∈ tokens, token.Lexical) : e.WellFormed := by
  induction h with
  | member _ ih => exact ih hlexical
  | chain _ _ _ ihleft ihright =>
      rw [List.forall_mem_append, List.forall_mem_cons] at hlexical
      obtain ⟨hbefore, -, hafter⟩ := hlexical
      exact ⟨ihleft hbefore, ihright hafter⟩
  | plus _ ih => exact ih (List.forall_mem_cons.mp hlexical).2
  | minus _ ih => exact ih (List.forall_mem_cons.mp hlexical).2
  | number hvalue => exact hvalue.isUnsigned
  | @text content => exact hlexical (.text content) (by simp)
  | @name word => exact hlexical (.name word) (by simp)
  | parens _ ih =>
      rw [List.forall_mem_cons, List.forall_mem_append] at hlexical
      exact ih hlexical.2.1

theorem Expr.DeriveList.wellFormed {tokens : List Token} {items : List Expr}
    (h : DeriveList tokens items) (hlexical : ∀ token ∈ tokens, token.Lexical) :
    ∀ e ∈ items, e.WellFormed := by
  induction h with
  | one hfirst =>
      intro e he
      rw [List.mem_singleton.mp he]
      exact hfirst.wellFormed hlexical
  | more hfirst _ ih =>
      rw [List.forall_mem_append, List.forall_mem_cons] at hlexical
      obtain ⟨htokens, -, hlater⟩ := hlexical
      exact List.forall_mem_cons.mpr ⟨hfirst.wellFormed htokens, ih hlater⟩

theorem Statement.Derives.wellFormed {tokens : List Token} {s : Statement} (h : Derives tokens s)
    (hlexical : ∀ token ∈ tokens, token.Lexical) : s.WellFormed := by
  induction h with
  | comment => trivial
  | letAssign hvalue =>
      simp only [List.forall_mem_cons] at hlexical
      obtain ⟨-, hname, -, htokens⟩ := hlexical
      exact ⟨hname, hvalue.wellFormed htokens⟩
  | assign hvalue =>
      simp only [List.forall_mem_cons] at hlexical
      obtain ⟨hname, -, htokens⟩ := hlexical
      exact ⟨hname, hvalue.wellFormed htokens⟩
  | printNothing =>
      intro e he
      cases he
  | print hitems => exact hitems.wellFormed (List.forall_mem_cons.mp hlexical).2
  | @input name => exact hlexical (.name name) (by simp)
  | ifJump hcondition hline =>
      rw [List.forall_mem_cons, List.forall_mem_append] at hlexical
      exact ⟨hcondition.wellFormed hlexical.2.1, hline.valid⟩
  | ifThen hcondition _ ih =>
      rw [List.forall_mem_cons, List.forall_mem_append, List.forall_mem_cons] at hlexical
      obtain ⟨-, hbefore, -, hbody⟩ := hlexical
      exact ⟨hcondition.wellFormed hbefore, ih hbody⟩
  | jump hline => exact hline.valid
  | stop => trivial

/-- The statement of a text is well formed. -/
theorem Statement.wellFormed_of_ofText {text : List Char} {s : Statement}
    (h : Statement.ofText text = .ok s) : s.WellFormed :=
  (Statement.readWhole_iff.mp h).wellFormed fun _ hmem => Token.lexical_of_mem_ofText hmem

end LineBasic
