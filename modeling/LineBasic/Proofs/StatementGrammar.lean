import LineBasic.Parser
import LineBasic.Proofs.ExprGrammar

/-!
# Statements are read as the grammar derives them

The statement of a list of tokens is read exactly if the list derives one, and then it is that one.
So a list derives at most one statement, and a text that is no statement is refused.

A reader of statements may leave tokens, and the grammar knows nothing of tokens that are left. The
two meet in `readWhole`, which accepts left-over tokens behind a comment only, and a derivation that
ends in a comment may be extended by any tokens (`Derives.append`).

## Main results

* `readWhole_iff`: reading all of some tokens, and deriving from them, are the same;
* `parse_grammar`: the statement of a source text is the one that its tokens derive.
-/

namespace LineBasic

/-- A line number is read off digits that denote it. -/
theorem LineNumber.ofDigits?_eq_some_iff {digits : String} {line : LineNumber} :
    LineNumber.ofDigits? digits.toList = some line ↔ DenotesLine digits line := by
  have hgreatest : LineNumber.greatest = 4294967295 := rfl
  unfold LineNumber.ofDigits?
  dsimp only
  constructor
  · intro h
    split at h
    · next hvalid =>
      obtain ⟨_, hdecimal, hpositive, hbounded⟩ := hvalid
      injection h with h
      subst h
      exact ⟨hdecimal, rfl, hpositive, hgreatest ▸ hbounded⟩
    · cases h
  · rintro ⟨hdecimal, rfl, hpositive, hbounded⟩
    have hnonempty : digits.toList ≠ [] := by
      intro hempty
      rw [hempty] at hpositive
      exact absurd hpositive (by decide)
    rw [if_pos ⟨hnonempty, hdecimal, hpositive, hgreatest ▸ hbounded⟩]

/-- One more item behind a list of items. -/
theorem Expr.DeriveList.snoc {tokens after : List Token} {items : List Expr} {e : Expr}
    (h : DeriveList tokens items) (he : Derives .comparison after e) :
    DeriveList (tokens ++ .comma :: after) (items ++ [e]) := by
  induction h with
  | one hfirst => exact .more hfirst (.one he)
  | more hfirst _ ih => simpa using DeriveList.more hfirst ih

namespace Statement

open LineBasic.Expr (DeriveList)

/-! ## Derivations and left-over tokens -/

/-- Tokens after a comment are part of the comment. -/
theorem Derives.append {tokens : List Token} {s : Statement} (h : Derives tokens s)
    (hcomment : s.endsInComment) (more : List Token) : Derives (tokens ++ more) s := by
  induction h with
  | comment commentary => exact .comment (commentary ++ more)
  | @ifThen tokens body condition statement hcondition _ ih =>
      have hextended := Derives.ifThen hcondition (ih hcomment)
      simpa using hextended
  | _ => cases hcomment

/-! ## What is read derives -/

theorem readAssignment_sound {tokens rest : List Token} {s : Statement}
    (h : (readAssignment tokens).Gives s rest) :
    ∃ name taken value, tokens = .name name :: .operator .equal :: (taken ++ rest) ∧
      Expr.Derives .comparison taken value ∧ s = .assign name value := by
  unfold readAssignment at h
  split at h
  · next name after =>
    obtain ⟨value, hvalue, rfl⟩ : ∃ value, (Expr.read after).Gives value rest ∧
        assign name value = s := by simpa using h
    obtain ⟨taken, rfl, hderives, -⟩ := Expr.read_sound hvalue
    exact ⟨name, taken, value, rfl, hderives, rfl⟩
  · simp at h
  · simp at h

theorem readItems_sound {items found : List Expr} {tokens rest before : List Token}
    (hbefore : DeriveList before items) (h : (readItems items tokens).Gives found rest) :
    ∃ taken, tokens = taken ++ rest ∧ DeriveList (before ++ taken) found := by
  fun_induction readItems items tokens generalizing before with
  | case1 items after item left fewer hitem ih =>
      obtain ⟨taken, rfl, hderives, -⟩ := Expr.read_sound ⟨fewer, hitem⟩
      obtain ⟨more, rfl, hmore⟩ := ih (hbefore.snoc hderives) (by simpa using h)
      exact ⟨.comma :: (taken ++ more), by simp, by simpa using hmore⟩
  | case2 items after error left noMore hitem => simp at h
  | case3 items tokens hcomma =>
      obtain ⟨rfl, rfl⟩ : items = found ∧ tokens = rest := by simpa using h
      exact ⟨[], rfl, by simpa using hbefore⟩

theorem readPrint_sound {tokens rest : List Token} {s : Statement}
    (h : (readPrint tokens).Gives s rest) :
    ∃ taken, tokens = taken ++ rest ∧ Derives (.keyword .PRINT :: taken) s := by
  unfold readPrint at h
  split at h
  · obtain ⟨rfl, rfl⟩ : print [] = s ∧ [] = rest := by simpa using h
    exact ⟨[], rfl, .printNothing⟩
  · split at h
    · next item after fewer hitem =>
      obtain ⟨items, hitems, rfl⟩ : ∃ items, (readItems [item] after).Gives items rest ∧
          print items = s := by simpa using h
      obtain ⟨taken, rfl, hderives, -⟩ := Expr.read_sound ⟨fewer, hitem⟩
      obtain ⟨more, rfl, hmore⟩ := readItems_sound (.one hderives) hitems
      exact ⟨taken ++ more, by simp, .print hmore⟩
    · simp at h

theorem readInput_sound {tokens rest : List Token} {s : Statement}
    (h : (readInput tokens).Gives s rest) :
    ∃ name, tokens = .name name :: rest ∧ s = .input name := by
  unfold readInput at h
  split at h
  · next name after =>
    obtain ⟨rfl, rfl⟩ : input name = s ∧ after = rest := by simpa using h
    exact ⟨name, rfl, rfl⟩
  · simp at h

theorem readJump_sound {tokens rest : List Token} {s : Statement}
    (h : (readJump tokens).Gives s rest) :
    ∃ digits target, tokens = .number digits :: rest ∧ DenotesLine digits target ∧
      s = .jump target := by
  unfold readJump at h
  split at h
  · next digits after =>
    split at h
    · next target htarget =>
      obtain ⟨rfl, rfl⟩ : jump target = s ∧ after = rest := by simpa using h
      exact ⟨digits, target, rfl, LineNumber.ofDigits?_eq_some_iff.mp htarget, rfl⟩
    · simp at h
  · simp at h

/-- The tokens that the reader of statements takes derive its statement. -/
def Sound (tokens : List Token) : Prop :=
  ∀ s rest, (read tokens).Gives s rest → ∃ taken, tokens = taken ++ rest ∧ Derives taken s

/-- The same for what follows a condition, behind the tokens of the condition. -/
def ConsequenceSound (condition : Expr) (tokens : List Token) : Prop :=
  ∀ before s rest, Expr.Derives .comparison before condition →
    (readConsequence condition tokens).Gives s rest →
      ∃ taken, tokens = taken ++ rest ∧ Derives (.keyword .IF :: (before ++ taken)) s

theorem sound_all :
    (∀ tokens, Sound tokens) ∧ ∀ condition tokens, ConsequenceSound condition tokens := by
  refine read.mutual_induct Sound ConsequenceSound
    ?comment ?letAssign ?assign ?name ?print ?input ?cond ?noCond ?jump ?stop ?other
    ?lineTarget ?noTarget ?body ?noThen
  case comment =>
    intro rest s left h
    obtain ⟨rfl, rfl⟩ : Statement.comment = s ∧ rest = left := by simpa [read] using h
    exact ⟨[.keyword .REM], rfl, .comment []⟩
  case letAssign =>
    intro rest s left h
    obtain ⟨name, taken, value, rfl, hderives, rfl⟩ :=
      readAssignment_sound (by simpa [read] using h)
    exact ⟨_ :: _ :: _ :: taken, rfl, .letAssign hderives⟩
  case assign =>
    intro word rest s left h
    rw [read] at h
    obtain ⟨name, taken, value, htokens, hderives, rfl⟩ := readAssignment_sound h
    exact ⟨_ :: _ :: taken, htokens, .assign hderives⟩
  case name =>
    intro word rest hequal s left h
    rw [read.eq_4 word rest hequal] at h
    simp at h
  case print =>
    intro rest s left h
    obtain ⟨taken, rfl, hderives⟩ := readPrint_sound (by simpa [read] using h)
    exact ⟨_ :: taken, rfl, hderives⟩
  case input =>
    intro rest s left h
    obtain ⟨name, rfl, rfl⟩ := readInput_sound (by simpa [read] using h)
    exact ⟨[_, _], rfl, .input⟩
  case cond =>
    intro rest condition after fewer hcondition ih s left h
    rw [read, hcondition] at h
    obtain ⟨taken, rfl, hderives, -⟩ := Expr.read_sound ⟨fewer, hcondition⟩
    obtain ⟨more, rfl, hmore⟩ := ih taken s left hderives (by simpa using h)
    exact ⟨_ :: (taken ++ more), by simp, hmore⟩
  case noCond =>
    intro rest error after noMore hcondition s left h
    rw [read, hcondition] at h
    simp at h
  case jump =>
    intro rest s left h
    obtain ⟨digits, target, rfl, hline, rfl⟩ := readJump_sound (by simpa [read] using h)
    exact ⟨[_, _], rfl, .jump hline⟩
  case stop =>
    intro rest s left h
    obtain ⟨rfl, rfl⟩ : Statement.stop = s ∧ rest = left := by simpa [read] using h
    exact ⟨[.keyword .END], rfl, .stop⟩
  case other =>
    intro tokens h1 h2 h3 h4 h5 h6 h7 h8 h9 s left h
    rw [read.eq_10 tokens h1 h2 h3 h4 h5 h6 h7 h8 h9] at h
    simp at h
  case lineTarget =>
    intro condition digits target htarget before s rest hcondition h
    rw [readConsequence, htarget] at h
    obtain ⟨rfl, rfl⟩ : ifJump condition target = s ∧ [] = rest := by simpa using h
    exact ⟨[_, _], rfl, .ifJump hcondition (LineNumber.ofDigits?_eq_some_iff.mp htarget)⟩
  case noTarget =>
    intro condition digits htarget before s rest hcondition h
    rw [readConsequence, htarget] at h
    simp at h
  case body =>
    intro condition body hlone ih before s rest hcondition h
    rw [readConsequence.eq_2 condition body hlone] at h
    obtain ⟨statement, hstatement, rfl⟩ : ∃ statement, (read body).Gives statement rest ∧
        ifThen condition statement = s := by simpa using h
    obtain ⟨taken, rfl, hderives⟩ := ih statement rest hstatement
    exact ⟨_ :: taken, rfl, .ifThen hcondition hderives⟩
  case noThen =>
    intro condition tokens hlone hthen before s rest hcondition h
    rw [readConsequence.eq_3 condition tokens hlone hthen] at h
    simp at h

/-- What is read whole derives from all the tokens. -/
theorem readWhole_sound {tokens rest : List Token} {s : Statement}
    (h : (readWhole tokens).Gives s rest) : Derives tokens s := by
  unfold readWhole at h
  split at h
  · next statement left fewer hread =>
    obtain ⟨taken, rfl, hderives⟩ := sound_all.1 tokens statement left ⟨fewer, hread⟩
    rw [Reply.gives_weaken] at h
    cases left with
    | nil =>
        obtain ⟨rfl, -⟩ : statement = s ∧ [] = rest := by simpa [refuseTrailing] using h
        simpa using hderives
    | cons token after =>
        by_cases hcomment : statement.endsInComment
        · obtain ⟨rfl, -⟩ : statement = s ∧ token :: after = rest := by
            simpa [refuseTrailing, hcomment] using h
          exact hderives.append hcomment (token :: after)
        · simp [refuseTrailing, hcomment] at h
  · simp at h

/-! ## What derives is read -/

/-- Items are read to the end of the tokens. -/
theorem readItems_complete {tokens : List Token} {items : List Expr}
    (h : DeriveList tokens items) (earlier : List Expr) :
    (readItems earlier (.comma :: tokens)).Gives (earlier ++ items) [] := by
  induction h generalizing earlier with
  | @one tokens e hfirst =>
      obtain ⟨fewer, hread⟩ := Expr.read_complete_all hfirst
      rw [readItems, hread]
      simp [readItems]
  | @more tokens later e items hfirst _ ih =>
      obtain ⟨fewer, hread⟩ : (Expr.read (tokens ++ .comma :: later)).Gives e (.comma :: later) :=
        Expr.read_complete hfirst rfl
      rw [readItems, hread]
      simpa using ih (earlier ++ [e])

/-- A list of items is read as the first of them and the others. -/
theorem readPrint_gives {tokens rest : List Token} {e : Expr} {items : List Expr}
    (hfirst : (Expr.read tokens).Gives e rest)
    (hitems : (readItems [e] rest).Gives items []) :
    (readPrint tokens).Gives (.print items) [] := by
  obtain ⟨fewer, hread⟩ := hfirst
  have hnonempty : tokens ≠ [] := by
    rintro rfl
    exact absurd fewer (Nat.not_lt_zero _)
  rw [readPrint.eq_2 tokens hnonempty, hread]
  simpa using hitems

theorem readPrint_complete {tokens : List Token} {items : List Expr}
    (h : DeriveList tokens items) : (readPrint tokens).Gives (.print items) [] := by
  cases h with
  | one hfirst =>
      exact readPrint_gives (Expr.read_complete_all hfirst) (by simp [readItems])
  | more hfirst hlater =>
      exact readPrint_gives (Expr.read_complete hfirst rfl) (readItems_complete hlater [_])

theorem readAssignment_complete (name : String) {tokens : List Token} {value : Expr}
    (h : Expr.Derives .comparison tokens value) :
    (readAssignment (.name name :: .operator .equal :: tokens)).Gives (.assign name value) [] := by
  have hread := Expr.read_complete_all h
  simpa [readAssignment] using hread

/-- A lone number behind `THEN` is no statement, so a statement there is read as one. -/
private theorem Derives.not_lone_number {body : List Token} {s : Statement} (h : Derives body s) :
    ∀ digits, body = [.number digits] → False := by
  rintro digits rfl
  cases h

/-- The tokens of a statement are read as it, all of them unless it ends in a comment. -/
theorem read_complete {tokens : List Token} {s : Statement} (h : Derives tokens s) :
    ∃ rest, (read tokens).Gives s rest ∧ (rest = [] ∨ s.endsInComment) := by
  induction h with
  | comment commentary => exact ⟨commentary, by simp [read], .inr rfl⟩
  | @letAssign name _ _ hvalue =>
      have hread := readAssignment_complete name hvalue
      exact ⟨[], by simpa [read] using hread, .inl rfl⟩
  | @assign name _ _ hvalue =>
      have hread := readAssignment_complete name hvalue
      exact ⟨[], by simpa [read] using hread, .inl rfl⟩
  | printNothing => exact ⟨[], by simp [read, readPrint], .inl rfl⟩
  | print hitems =>
      have hread := readPrint_complete hitems
      exact ⟨[], by simpa [read] using hread, .inl rfl⟩
  | input => exact ⟨[], by simp [read, readInput], .inl rfl⟩
  | @ifJump tokens condition digits target hcondition hline =>
      obtain ⟨fewer, hread⟩ : (Expr.read (tokens ++ [.keyword .THEN, .number digits])).Gives
          condition [.keyword .THEN, .number digits] := Expr.read_complete hcondition rfl
      have htarget := LineNumber.ofDigits?_eq_some_iff.mpr hline
      refine ⟨[], ?_, .inl rfl⟩
      rw [read, hread]
      simp [readConsequence, htarget]
  | @ifThen tokens body condition statement hcondition hbody ih =>
      obtain ⟨fewer, hread⟩ : (Expr.read (tokens ++ .keyword .THEN :: body)).Gives
          condition (.keyword .THEN :: body) := Expr.read_complete hcondition rfl
      obtain ⟨rest, hstatement, hrest⟩ := ih
      refine ⟨rest, ?_, hrest⟩
      rw [read, hread]
      simp only [Reply.gives_afterToken, Reply.gives_weaken]
      rw [readConsequence.eq_2 condition body hbody.not_lone_number]
      simpa using hstatement
  | jump hline =>
      have htarget := LineNumber.ofDigits?_eq_some_iff.mpr hline
      exact ⟨[], by simp [read, readJump, htarget], .inl rfl⟩
  | stop => exact ⟨[], by simp [read], .inl rfl⟩

theorem readWhole_complete {tokens : List Token} {s : Statement} (h : Derives tokens s) :
    ∃ rest, (readWhole tokens).Gives s rest := by
  obtain ⟨rest, ⟨fewer, hread⟩, hrest⟩ := read_complete h
  refine ⟨rest, ?_⟩
  rw [readWhole, hread]
  cases rest with
  | nil => simp [refuseTrailing]
  | cons next later =>
      have hcomment : s.endsInComment := by simpa using hrest
      simp [refuseTrailing, hcomment]

/-- Reading all of some tokens and deriving from them are the same. -/
theorem readWhole_iff {tokens : List Token} {s : Statement} :
    (readWhole tokens).result = .ok s ↔ Derives tokens s := by
  constructor
  · intro h
    exact readWhole_sound (Reply.gives_of_result_eq h)
  · intro h
    obtain ⟨rest, hread⟩ := readWhole_complete h
    exact hread.result_eq

/-- Some tokens derive at most one statement. -/
theorem Derives.unique {tokens : List Token} {s s' : Statement} (h : Derives tokens s)
    (h' : Derives tokens s') : s = s' := by
  have hread := readWhole_iff.mpr h
  rw [readWhole_iff.mpr h'] at hread
  injection hread with hread
  exact hread.symm

end Statement

namespace Parser

/-- A text is parsed as its tokens are read, and a fault names no line. -/
theorem parse_eq (source : String) :
    parse source = match Statement.parse source with
      | .ok s => .ok s
      | .error error => .error (.statement none [error]) := by
  unfold parse parseStatement ofText Statement.parse Statement.ofText
  cases Statement.readWhole (Token.ofText source.toList) <;> rfl

theorem parse_eq_ok_iff {source : String} {s : Statement} :
    parse source = .ok s ↔ Statement.parse source = .ok s := by
  rw [parse_eq]
  split
  · next found h => rw [h]; simp
  · next error h => rw [h]; simp

/-- **Parsing is deriving**: a source text is parsed as a statement exactly if its tokens derive the
statement, they derive at most one, and a text whose tokens derive none is refused with one error
that names no line. -/
theorem parse_grammar (source : String) :
    (∀ s, parse source = .ok s ↔ Statement.Derives (Token.ofText source.toList) s) ∧
      (∀ s s', Statement.Derives (Token.ofText source.toList) s →
        Statement.Derives (Token.ofText source.toList) s' → s = s') ∧
      ((∀ s, ¬Statement.Derives (Token.ofText source.toList) s) →
        ∃ error, parse source = .error (.statement none [error])) := by
  refine ⟨fun s => ?_, fun s s' => Statement.Derives.unique, fun hnone => ?_⟩
  · rw [parse_eq_ok_iff]
    exact Statement.readWhole_iff
  · rw [parse_eq]
    split
    · next s h => exact absurd (Statement.readWhole_iff.mp h) (hnone s)
    · next error _ => exact ⟨error, rfl⟩

end Parser

end LineBasic
