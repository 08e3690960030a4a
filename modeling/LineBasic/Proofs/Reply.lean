import LineBasic.Reply

/-!
# What a reply gives

A reply carries a bound and the proof that it is met, and neither matters to what has been read.
`Reply.Gives` says only which value a reader has found and which tokens it has left. Changing the
bound keeps it, so the readers' laws can be stated without bounds.
-/

namespace LineBasic.Reply

variable {α β : Type} {m n : Nat}

/-- The reply is a success with the given value, and leaves the given tokens. -/
def Gives (r : Reply α n) (value : α) (rest : List Token) : Prop :=
  ∃ fewer, r = .done value rest fewer

theorem gives_done {value : α} {rest : List Token} (fewer : rest.length < n) :
    (done value rest fewer).Gives value rest := ⟨fewer, rfl⟩

theorem gives_leaving (value : α) (rest : List Token) :
    (leaving value rest).Gives value rest := ⟨_, rfl⟩

@[simp] theorem gives_leaving_iff {value found : α} {rest left : List Token} :
    (leaving value rest).Gives found left ↔ value = found ∧ rest = left := by
  constructor
  · rintro ⟨fewer, h⟩
    injection h with hvalue hrest
    exact ⟨hvalue, hrest⟩
  · rintro ⟨rfl, rfl⟩
    exact gives_leaving value rest

@[simp] theorem gives_done_iff {value found : α} {rest left : List Token}
    {fewer : rest.length < n} :
    (done value rest fewer).Gives found left ↔ value = found ∧ rest = left := by
  constructor
  · rintro ⟨_, h⟩
    injection h with hvalue hrest
    exact ⟨hvalue, hrest⟩
  · rintro ⟨rfl, rfl⟩
    exact gives_done fewer

@[simp] theorem not_gives_fault {value : α} {error : SyntaxError} {rest left : List Token}
    {noMore : rest.length ≤ n} : ¬(fault error rest noMore : Reply α n).Gives value left := by
  rintro ⟨_, h⟩
  cases h

@[simp] theorem not_gives_refusing {value : α} {error : SyntaxError} {tokens left : List Token} :
    ¬(refusing error tokens : Reply α tokens.length).Gives value left :=
  not_gives_fault

@[simp] theorem gives_weaken {r : Reply α m} {h : m ≤ n} {value : α} {rest : List Token} :
    (r.weaken h).Gives value rest ↔ r.Gives value rest := by
  cases r <;> simp [weaken]

@[simp] theorem gives_afterToken {r : Reply α n} {value : α} {rest : List Token} :
    r.afterToken.Gives value rest ↔ r.Gives value rest := gives_weaken

@[simp] theorem not_gives_rejecting {value : α} {error : SyntaxError} {tokens left : List Token} :
    ¬(rejecting error tokens : Reply α tokens.length).Gives value left := by
  cases tokens <;> simp [rejecting]

@[simp] theorem gives_map {f : α → β} {r : Reply α n} {value : β} {rest : List Token} :
    (r.map f).Gives value rest ↔ ∃ found, r.Gives found rest ∧ f found = value := by
  cases r with
  | done found left fewer =>
      simp only [map, gives_done_iff]
      constructor
      · rintro ⟨hvalue, hrest⟩
        exact ⟨found, ⟨rfl, hrest⟩, hvalue⟩
      · rintro ⟨_, ⟨rfl, hrest⟩, hvalue⟩
        exact ⟨hvalue, hrest⟩
  | fault error left noMore => simp [map]

/-- A value that is given is the reply's result. -/
theorem Gives.result_eq {r : Reply α n} {value : α} {rest : List Token} (h : r.Gives value rest) :
    r.result = .ok value := by
  obtain ⟨fewer, rfl⟩ := h
  rfl

/-- A reply whose result is a value gives it. -/
theorem gives_of_result_eq {r : Reply α n} {value : α} (h : r.result = .ok value) :
    r.Gives value r.rest := by
  cases r with
  | done found left fewer =>
      injection h with h
      subst h
      exact gives_done fewer
  | fault error left noMore => cases h

end LineBasic.Reply
