import LineBasic.Proofs.Kinds

/-!
# The store after any assignments

A store keeps two tables, one for each kind of values, and is one map all the same. A variable is
kept in the table of its name's kind, under its name in upper case, so no variable is kept in both
(`Store.Sorted`), and the tables together hold each variable that has been set, once.

Assignments may be of any names and values. One is accepted if the value has the name's kind, and
what the store holds already plays no part in that. So of the assignments to a variable the last one
that is accepted decides its value, and those that are refused, and those to other variables, play
no part.

## Main definitions

* `Store.attempt`, `Store.attemptAll`: assignments, whatever comes of them;
* `Store.names`: the variables that have been set;
* `Store.Sorted`: each variable is in the table of its kind.

## Main results

* `Store.get_set`: a store in which one variable has been set;
* `Store.set_of_ne_kind`: the assignments that are refused;
* `Store.get_attemptAll`, `Store.mem_names_attemptAll`: a store after any assignments;
* `Store.attemptAll_is_map`: such a store is a map from names in upper case.
-/

namespace LineBasic

/-! ## Tables -/

namespace Table

variable {α : Type}

/-- The names in a table. -/
def names (t : Table α) : List String := t.entries.map Prod.fst

theorem length_names (t : Table α) : t.names.length = t.size := List.length_map _

theorem mem_names_set {t : Table α} {name other : String} {value : α} :
    other ∈ (t.set name value).names ↔ other = name ∨ other ∈ t.names := by
  have hkeys : (t.set name value).names =
      if name ∈ t.names then t.names else t.names ++ [name] := keys_replace name value t.entries
  rw [hkeys]
  split
  · next hmem =>
    constructor
    · exact .inr
    · rintro (rfl | hother)
      · exact hmem
      · exact hother
  · rw [List.mem_append, List.mem_singleton, or_comm]

end Table

/-- A list without its repetitions has none. -/
theorem nodup_eraseDups (names : List String) : names.eraseDups.Nodup := by
  induction hlength : names.length using Nat.strongRecOn generalizing names with
  | ind length ih =>
      cases names with
      | nil => exact .nil
      | cons name later =>
          have hshorter := List.length_filter_le (fun other => !other == name) later
          rw [List.length_cons] at hlength
          rw [List.eraseDups_cons, List.nodup_cons]
          refine ⟨?_, ih _ (by omega) _ rfl⟩
          simp [List.mem_eraseDups]

/-- The value of a variable of a kind that has not been set. -/
def Kind.unset : Kind → Value
  | .number => .number 0
  | .text => .text ""

namespace Store

/-! ## One assignment -/

/-- Letter case does not matter in a store. -/
theorem get_toUpper (store : Store) (name : String) : store.get name.toUpper = store.get name := by
  have hupper : name.toUpper.toUpper = name.toUpper := by
    show (name.map Char.toUpper).map Char.toUpper = name.map Char.toUpper
    rw [String.map_map]
    exact congrArg (String.map · name) (funext Text.toUpper_toUpper)
  unfold get
  rw [hupper]

/-- Setting a variable changes its value, and that of no other variable. -/
theorem get_set {store after : Store} {name : String} {value : Value}
    (h : store.set name value = .ok after) (other : String) :
    after.get other = if name.toUpper = other.toUpper then value else store.get other := by
  unfold set at h
  unfold get
  dsimp only at h ⊢
  split at h
  · next hkind =>
    injection h with h
    subst h
    simp only [Table.get?_set]
    by_cases hsame : name.toUpper = other.toUpper
    · rw [← hsame, hkind]
      simp
    · simp only [if_neg hsame]
  · next hkind =>
    injection h with h
    subst h
    simp only [Table.get?_set]
    by_cases hsame : name.toUpper = other.toUpper
    · rw [← hsame, hkind]
      simp
    · simp only [if_neg hsame]
  · cases h

/-- A value of the other kind is refused, with the name in upper case and its kind. -/
theorem set_of_ne_kind (store : Store) {name : String} {value : Value}
    (h : value.kind ≠ Kind.ofName name) :
    store.set name value = .error (.variableKind name.toUpper (Kind.ofName name)) := by
  have hlands := store.lands_set name value
  cases hset : store.set name value with
  | ok after =>
      rw [hset] at hlands
      exact absurd hlands h
  | error error =>
      rw [hset] at hlands
      rw [hlands.2]

/-- A store in which nothing is set reads as unset. -/
theorem get_empty (name : String) : empty.get name = (Kind.ofName name).unset := by
  rw [← Kind.ofName_toUpper]
  unfold get
  dsimp only
  cases Kind.ofName name.toUpper <;> rfl

/-! ## The variables that have been set -/

/-- The variables that have been set, in upper case. -/
def names (s : Store) : List String := s.numbers.names ++ s.texts.names

theorem length_names (s : Store) : s.names.length = s.size := by
  rw [names, List.length_append, Table.length_names, Table.length_names]
  rfl

/-- Each variable is in the table of its kind. -/
structure Sorted (s : Store) : Prop where
  numbers : ∀ name ∈ s.numbers.names, Kind.ofName name = .number
  texts : ∀ name ∈ s.texts.names, Kind.ofName name = .text

theorem sorted_empty : empty.Sorted := ⟨by simp [empty, Table.names, Table.empty],
  by simp [empty, Table.names, Table.empty]⟩

/-- No variable is in both tables, and none is twice in one. -/
theorem Sorted.nodup_names {s : Store} (h : s.Sorted) : s.names.Nodup := by
  refine List.nodup_append.mpr ⟨s.numbers.distinct, s.texts.distinct, ?_⟩
  rintro name hnumber other htext rfl
  have hkind := h.numbers name hnumber
  rw [h.texts name htext] at hkind
  cases hkind

/-- A variable that is set is put into the table of its kind, and nothing leaves a table. -/
theorem sorted_and_mem_names_set {s after : Store} {name : String} {value : Value} (h : s.Sorted)
    (hset : s.set name value = .ok after) :
    after.Sorted ∧ ∀ other, other ∈ after.names ↔ other = name.toUpper ∨ other ∈ s.names := by
  unfold set at hset
  dsimp only at hset
  split at hset
  · next hkind =>
    injection hset with hset
    subst hset
    refine ⟨⟨fun other hother => ?_, h.texts⟩, fun other => ?_⟩
    · rcases Table.mem_names_set.mp hother with rfl | hother
      · exact hkind
      · exact h.numbers other hother
    · simp only [names, List.mem_append, Table.mem_names_set, or_assoc]
  · next hkind =>
    injection hset with hset
    subst hset
    refine ⟨⟨h.numbers, fun other hother => ?_⟩, fun other => ?_⟩
    · rcases Table.mem_names_set.mp hother with rfl | hother
      · exact hkind
      · exact h.texts other hother
    · simp only [names, List.mem_append, Table.mem_names_set, or_left_comm]
  · cases hset

/-! ## Any assignments -/

/-- What comes of an assignment, and the store after it. -/
def attempt (s : Store) (name : String) (value : Value) : Except RuntimeError Unit × Store :=
  match s.set name value with
  | .ok after => (.ok (), after)
  | .error error => (.error error, s)

/-- The store after some assignments, whatever came of them. -/
def attemptAll (s : Store) (assignments : List (String × Value)) : Store :=
  assignments.foldl (fun s assignment => (s.attempt assignment.1 assignment.2).2) s

/-- Whether an assignment is of a value of its name's kind. -/
def accepts (assignment : String × Value) : Bool :=
  assignment.2.kind = Kind.ofName assignment.1

/-- The assignments that are accepted, with their names in upper case. -/
def accepted (assignments : List (String × Value)) : List (String × Value) :=
  (assignments.filter accepts).map fun assignment => (assignment.1.toUpper, assignment.2)

/-- The value of the last assignment to a variable that is accepted. -/
def lastSet? (assignments : List (String × Value)) (name : String) : Option Value :=
  (accepted assignments).reverse.lookup name.toUpper

/-- The variables that some assignments set, each once, in upper case. -/
def namesSet (assignments : List (String × Value)) : List String :=
  ((accepted assignments).map Prod.fst).eraseDups

variable {s : Store} {name : String} {value : Value}

/-- An accepted assignment has the value set. -/
theorem attempt_of_kind (h : value.kind = Kind.ofName name) :
    ∃ after, s.set name value = .ok after ∧ s.attempt name value = (.ok (), after) := by
  obtain ⟨after, hset, -⟩ := s.exists_set h
  exact ⟨after, hset, by rw [attempt, hset]⟩

/-- An assignment that is refused changes nothing. -/
theorem attempt_of_ne_kind (h : value.kind ≠ Kind.ofName name) :
    s.attempt name value = (.error (.variableKind name.toUpper (Kind.ofName name)), s) := by
  rw [attempt, s.set_of_ne_kind h]

/-- What an assignment does to the value of a variable. -/
theorem get_attempt (s : Store) (assignment : String × Value) (name : String) :
    (s.attempt assignment.1 assignment.2).2.get name =
      if accepts assignment && assignment.1.toUpper = name.toUpper then assignment.2
      else s.get name := by
  by_cases hkind : assignment.2.kind = Kind.ofName assignment.1
  · obtain ⟨after, hset, hattempt⟩ := attempt_of_kind (s := s) hkind
    rw [hattempt, get_set hset]
    simp [accepts, hkind]
  · rw [attempt_of_ne_kind hkind]
    simp [accepts, hkind]

/-- What an assignment does to the variables that are set. -/
theorem sorted_and_mem_names_attempt (h : s.Sorted) (assignment : String × Value) :
    (s.attempt assignment.1 assignment.2).2.Sorted ∧
      ∀ name, name ∈ (s.attempt assignment.1 assignment.2).2.names ↔
        (accepts assignment ∧ assignment.1.toUpper = name) ∨ name ∈ s.names := by
  by_cases hkind : assignment.2.kind = Kind.ofName assignment.1
  · obtain ⟨after, hset, hattempt⟩ := attempt_of_kind (s := s) hkind
    obtain ⟨hsorted, hnames⟩ := sorted_and_mem_names_set h hset
    rw [hattempt]
    refine ⟨hsorted, fun name => ?_⟩
    rw [hnames]
    simp [accepts, hkind, eq_comm]
  · rw [attempt_of_ne_kind hkind]
    exact ⟨h, fun name => by simp [accepts, hkind]⟩

theorem lastSet?_cons (assignment : String × Value) (later : List (String × Value))
    (name : String) :
    lastSet? (assignment :: later) name =
      (lastSet? later name).or
        (if accepts assignment && assignment.1.toUpper = name.toUpper then some assignment.2
          else none) := by
  unfold lastSet? accepted
  cases haccepts : accepts assignment with
  | true =>
      rw [List.filter_cons_of_pos haccepts, List.map_cons, List.reverse_cons, List.lookup_append,
        List.lookup_cons]
      by_cases hname : assignment.1.toUpper = name.toUpper
      · simp [hname]
      · have hne := beq_eq_false_iff_ne.mpr (Ne.symm hname)
        simp [hname, hne]
  | false => simp [haccepts]

/-- **The last assignment that is accepted** decides the value of its variable. -/
theorem get_attemptAll (s : Store) (assignments : List (String × Value)) (name : String) :
    (s.attemptAll assignments).get name = (lastSet? assignments name).getD (s.get name) := by
  induction assignments generalizing s with
  | nil => rfl
  | cons assignment later ih =>
      show ((s.attempt assignment.1 assignment.2).2.attemptAll later).get name = _
      rw [ih, get_attempt, lastSet?_cons]
      cases lastSet? later name with
      | some found => rfl
      | none =>
          rw [Option.none_or]
          split <;> rfl

theorem mem_namesSet_cons {assignment : String × Value} {later : List (String × Value)}
    {name : String} :
    name ∈ namesSet (assignment :: later) ↔
      (accepts assignment ∧ assignment.1.toUpper = name) ∨ name ∈ namesSet later := by
  unfold namesSet accepted
  cases haccepts : accepts assignment with
  | true =>
      rw [List.filter_cons_of_pos haccepts, List.map_cons, List.map_cons, List.mem_eraseDups,
        List.mem_cons, List.mem_eraseDups]
      exact or_congr_left ⟨fun h => ⟨rfl, h.symm⟩, fun h => h.2.symm⟩
  | false => simp [haccepts]

/-- **The variables that are set** are those of the assignments that are accepted. -/
theorem mem_names_attemptAll (h : s.Sorted) (assignments : List (String × Value)) :
    (s.attemptAll assignments).Sorted ∧
      ∀ name, name ∈ (s.attemptAll assignments).names ↔
        name ∈ namesSet assignments ∨ name ∈ s.names := by
  induction assignments generalizing s with
  | nil => exact ⟨h, fun name => by simp [namesSet, accepted, attemptAll]⟩
  | cons assignment later ih =>
      obtain ⟨hsorted, hnames⟩ := sorted_and_mem_names_attempt h assignment
      obtain ⟨hlater, hnamesLater⟩ := ih hsorted
      refine ⟨hlater, fun name => ?_⟩
      show name ∈ ((s.attempt assignment.1 assignment.2).2.attemptAll later).names ↔ _
      rw [hnamesLater, hnames, mem_namesSet_cons, or_assoc]
      exact or_left_comm

/-- The number of variables that are set is the number of their names. -/
theorem size_attemptAll (assignments : List (String × Value)) :
    (empty.attemptAll assignments).size = (namesSet assignments).length := by
  obtain ⟨hsorted, hnames⟩ := mem_names_attemptAll sorted_empty assignments
  have hmem (name : String) :
      name ∈ (empty.attemptAll assignments).names ↔ name ∈ namesSet assignments := by
    rw [hnames]
    exact or_iff_left List.not_mem_nil
  rw [← length_names]
  exact ((List.perm_ext_iff_of_nodup hsorted.nodup_names (nodup_eraseDups _)).mpr hmem).length_eq

/-- **A store is a map** from names in upper case to values of their kinds. Whatever has been
assigned to variables of a new store: the next assignment is accepted exactly if the value has the
kind of the name, and one that is refused changes nothing and is reported with the name in upper
case and its kind. A variable has the value of the last accepted assignment to its name in any
letter case, or else zero or the empty text, as the name ends in a dollar sign or not, and so a
value of the name's kind. The variables are as many as there are names in upper case with an
accepted assignment. And an assignment changes no variable of another name. -/
theorem attemptAll_is_map (assignments : List (String × Value)) :
    (∀ name value, ((empty.attemptAll assignments).attempt name value).1 = .ok () ↔
        value.kind = Kind.ofName name) ∧
      (∀ name value, value.kind ≠ Kind.ofName name →
        (empty.attemptAll assignments).attempt name value =
          (.error (.variableKind name.toUpper (Kind.ofName name)),
            empty.attemptAll assignments)) ∧
      (∀ name, (empty.attemptAll assignments).get name =
        (lastSet? assignments name).getD
          (if name.toList.getLast? = some '$' then .text "" else .number 0)) ∧
      (∀ name, ((empty.attemptAll assignments).get name).kind = Kind.ofName name) ∧
      (empty.attemptAll assignments).size = (namesSet assignments).length ∧
      ∀ name value other, other.toUpper ≠ name.toUpper →
        ((empty.attemptAll assignments).attempt name value).2.get other =
          (empty.attemptAll assignments).get other := by
  refine ⟨fun name value => ?_, fun name value h => attempt_of_ne_kind h, fun name => ?_,
    fun name => kind_get _ name, size_attemptAll assignments, fun name value other hne => ?_⟩
  · constructor
    · intro haccepted
      by_cases hkind : value.kind = Kind.ofName name
      · exact hkind
      · rw [attempt_of_ne_kind hkind] at haccepted
        cases haccepted
    · intro hkind
      obtain ⟨after, -, hattempt⟩ := attempt_of_kind (s := empty.attemptAll assignments) hkind
      rw [hattempt]
  · rw [get_attemptAll, get_empty, Kind.ofName]
    split <;> rfl
  · rw [get_attempt _ (name, value)]
    simp [Ne.symm hne]

/-- One variable in two letter cases, one of each kind that is refused a value, names that differ in
a letter beyond ASCII, and the empty name. -/
def assorted : List (String × Value) :=
  [("N", .number 3), ("n", .number 4), ("A$", .text "hi"), ("X", .text "five"), ("S$", .number 5),
    ("É$", .text "e"), ("é$", .text "f"), ("", .number 1), ("A$", .number 0)]

/-- Five variables are set. The one that was refused a text is zero, the later value in another
letter case has replaced the earlier one, and letter case beyond ASCII tells names apart. -/
theorem attemptAll_is_map_assorted :
    ((empty.attemptAll assorted).attempt "S$" (.number 5)).1 =
        .error (.variableKind "S$" .text) ∧
      (empty.attemptAll assorted).size = 5 ∧
      (empty.attemptAll assorted).get "N" = .number 4 ∧
      (empty.attemptAll assorted).get "X" = .number 0 ∧
      (empty.attemptAll assorted).get "A$" = .text "hi" ∧
      (empty.attemptAll assorted).get "É$" = .text "e" ∧
      ((empty.attemptAll assorted).attempt "B$" (.text "new")).2.get "N" = .number 4 := by
  obtain ⟨-, hrefused, hget, -, hsize, hothers⟩ := attemptAll_is_map assorted
  have haccepted : accepted assorted =
      [("N", .number 3), ("N", .number 4), ("A$", .text "hi"), ("É$", .text "e"),
        ("é$", .text "f"), ("", .number 1)] := by decide +kernel
  have hnames : "S$".toUpper = "S$" ∧ "N".toUpper = "N" ∧ "X".toUpper = "X" ∧
      "A$".toUpper = "A$" ∧ "É$".toUpper = "É$" := by decide +kernel
  obtain ⟨hS, hN, hX, hA, hE⟩ := hnames
  have hvalue : (empty.attemptAll assorted).get "N" = .number 4 := by
    rw [hget, lastSet?, haccepted, hN]
    decide
  refine ⟨?_, ?_, hvalue, ?_, ?_, ?_, ?_⟩
  · have hkind : Kind.ofName "S$" = .text := by decide
    have hne : (Value.number 5).kind ≠ Kind.ofName "S$" := by decide
    rw [hrefused "S$" (.number 5) hne, hS, hkind]
  · rw [hsize, namesSet, haccepted]
    decide
  · rw [hget, lastSet?, haccepted, hX]
    decide
  · rw [hget, lastSet?, haccepted, hA]
    decide
  · rw [hget, lastSet?, haccepted, hE]
    decide
  · rw [hothers "B$" (.text "new") "N" (by decide +kernel), hvalue]

end Store

end LineBasic
