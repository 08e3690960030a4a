/-!
# Tables

A finite map from names to values, as the list of its entries. No name occurs twice, so the number
of entries is the number of names. An entry keeps its place when its value changes.

## Main results

* `get?_set`: what a table holds after an entry is set;
* `size_set`: its size grows exactly if the name is new.
-/

namespace LineBasic

/-- A finite map from names to values. -/
structure Table (α : Type) where
  entries : List (String × α)
  distinct : (entries.map Prod.fst).Nodup

namespace Table

variable {α : Type}

/-! ## Lists of entries -/

/-- The value of the first entry with a name. -/
def find? (name : String) : List (String × α) → Option α
  | [] => none
  | (key, value) :: rest => if key = name then some value else find? name rest

/-- The entries with one value replaced, or added at the end. -/
def replace (name : String) (value : α) : List (String × α) → List (String × α)
  | [] => [(name, value)]
  | (key, old) :: rest =>
    if key = name then (name, value) :: rest else (key, old) :: replace name value rest

theorem find?_replace (name other : String) (value : α) (entries : List (String × α)) :
    find? other (replace name value entries) =
      if name = other then some value else find? other entries := by
  induction entries with
  | nil => simp [replace, find?]
  | cons entry rest ih =>
    obtain ⟨key, old⟩ := entry
    by_cases hsame : key = name
    · subst hsame
      by_cases hfound : key = other <;> simp [replace, find?, hfound]
    · by_cases hfound : key = other
      · subst hfound
        simp [replace, find?, hsame, Ne.symm hsame]
      · simp [replace, find?, hsame, hfound, ih]

theorem keys_replace (name : String) (value : α) (entries : List (String × α)) :
    (replace name value entries).map Prod.fst =
      if name ∈ entries.map Prod.fst then entries.map Prod.fst
      else entries.map Prod.fst ++ [name] := by
  induction entries with
  | nil => simp [replace]
  | cons entry rest ih =>
    obtain ⟨key, old⟩ := entry
    by_cases hsame : key = name
    · simp [replace, hsame]
    · by_cases hmem : name ∈ rest.map Prod.fst <;>
        simp [replace, hsame, Ne.symm hsame, ih, hmem]

/-! ## The operations of a table -/

/-- The table without entries. -/
def empty : Table α := ⟨[], .nil⟩

/-- The number of names in the table. -/
def size (t : Table α) : Nat := t.entries.length

/-- The value of a name. -/
def get? (t : Table α) (name : String) : Option α := find? name t.entries

/-- The table with the value of one name set. -/
def set (t : Table α) (name : String) (value : α) : Table α where
  entries := replace name value t.entries
  distinct := by
    rw [keys_replace]
    split
    · exact t.distinct
    · next hnew =>
      refine List.nodup_append.mpr ⟨t.distinct, by simp, ?_⟩
      rintro a hmem b hname rfl
      exact hnew (by simpa [List.mem_singleton.mp hname] using hmem)

@[simp] theorem get?_empty (name : String) : (empty : Table α).get? name = none := rfl

@[simp] theorem size_empty : (empty : Table α).size = 0 := rfl

theorem get?_set (t : Table α) (name other : String) (value : α) :
    (t.set name value).get? other = if name = other then some value else t.get? other :=
  find?_replace name other value t.entries

theorem size_set (t : Table α) (name : String) (value : α) :
    (t.set name value).size =
      if name ∈ t.entries.map Prod.fst then t.size else t.size + 1 := by
  have hkeys := congrArg List.length (keys_replace name value t.entries)
  rw [List.length_map] at hkeys
  simp only [size, set, hkeys]
  split <;> simp

end Table

end LineBasic
