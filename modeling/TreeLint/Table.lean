/-!
# Tables in insertion order

A table is a list of rows with one row for each key. Writing to a key that is already present
replaces the value and keeps the place of the row; a new key goes to the end. Levels of rules,
fields of documents and counts by code are all tables, and the order of their rows is visible in
the output.
-/

namespace TreeLint

/-- Rows of a table, oldest key first. -/
abbrev Table (κ α : Type) := List (κ × α)

namespace Table

variable {κ α : Type} [DecidableEq κ]

/-- The value stored at a key. -/
def get? : Table κ α → κ → Option α
  | [], _ => none
  | (k, v) :: rest, key => if k = key then some v else get? rest key

/-- Store a value at a key, keeping the place of a key that is already there. -/
def set : Table κ α → κ → α → Table κ α
  | [], key, value => [(key, value)]
  | (k, v) :: rest, key, value =>
    if k = key then (k, value) :: rest else (k, v) :: set rest key value

/-- Whether a key has a row. -/
def has (rows : Table κ α) (key : κ) : Bool :=
  (rows.get? key).isSome

/-- The keys in order of insertion. -/
def keys (rows : Table κ α) : List κ :=
  rows.map Prod.fst

/-- Write a list of pairs one after the other, so that the last value of a key stays. -/
def ofPairs (pairs : List (κ × α)) : Table κ α :=
  pairs.foldl (fun rows pair => Table.set rows pair.1 pair.2) []

/-- Reading back the key that was just written gives the written value. -/
@[simp] theorem get?_set_self (rows : Table κ α) (key : κ) (value : α) :
    (rows.set key value).get? key = some value := by
  induction rows with
  | nil => simp [set, get?]
  | cons row rest ih =>
    obtain ⟨k, v⟩ := row
    by_cases h : k = key <;> simp [set, get?, h, ih]

/-- Writing one key leaves every other key as it was. -/
theorem get?_set_of_ne (rows : Table κ α) {key other : κ} (value : α) (h : other ≠ key) :
    (rows.set key value).get? other = rows.get? other := by
  induction rows with
  | nil => simp [set, get?, Ne.symm h]
  | cons row rest ih =>
    obtain ⟨k, v⟩ := row
    by_cases hk : k = key
    · subst hk
      simp [set, get?, Ne.symm h]
    · simp [set, get?, hk, ih]

/-- A key has no value exactly when it is not among the keys. -/
theorem get?_eq_none_iff {rows : Table κ α} {key : κ} : rows.get? key = none ↔ key ∉ rows.keys := by
  induction rows with
  | nil => simp [get?, keys]
  | cons row rest ih =>
    obtain ⟨k, v⟩ := row
    by_cases hk : k = key
    · simp [get?, keys, hk]
    · simp only [keys] at ih
      simp [get?, keys, hk, Ne.symm hk, ih]

/-- A written key that was present leaves the keys unchanged, and a new one goes to the end. -/
theorem keys_set (rows : Table κ α) (key : κ) (value : α) :
    (rows.set key value).keys = if key ∈ rows.keys then rows.keys else rows.keys ++ [key] := by
  induction rows with
  | nil => simp [set, keys]
  | cons row rest ih =>
    obtain ⟨k, v⟩ := row
    by_cases hk : k = key
    · simp [set, keys, hk]
    · have hne : key ≠ k := Ne.symm hk
      simp only [keys] at ih
      simp only [set, hk, if_false, keys, List.map_cons, ih, List.mem_cons, hne, false_or]
      split <;> simp [*]

/-- Writing to a new key adds a row at the end. -/
theorem set_of_not_mem_keys {rows : Table κ α} {key : κ} (value : α) (h : key ∉ rows.keys) :
    rows.set key value = rows ++ [(key, value)] := by
  induction rows with
  | nil => rfl
  | cons row rest ih =>
    obtain ⟨k, v⟩ := row
    have hk : k ≠ key := fun heq => h (heq ▸ List.mem_cons_self)
    have hrest : key ∉ keys rest := fun hmem => h (List.mem_cons_of_mem k hmem)
    rw [set, if_neg hk, ih hrest, List.cons_append]

/-- The keys after a write are those from before and the written one. -/
theorem mem_keys_set_iff (rows : Table κ α) (key : κ) (value : α) {other : κ} :
    other ∈ (rows.set key value).keys ↔ other ∈ rows.keys ∨ other = key := by
  rw [keys_set]
  by_cases h : key ∈ rows.keys
  · rw [if_pos h]
    exact ⟨.inl, fun hother => hother.elim id fun heq => heq ▸ h⟩
  · rw [if_neg h, List.mem_append, List.mem_singleton]

/-- A write keeps one row for each key. -/
theorem nodup_keys_set {rows : Table κ α} (h : rows.keys.Nodup) (key : κ) (value : α) :
    (rows.set key value).keys.Nodup := by
  rw [keys_set]
  by_cases hkey : key ∈ rows.keys
  · rwa [if_pos hkey]
  · rw [if_neg hkey, List.nodup_append]
    refine ⟨h, List.nodup_cons.mpr ⟨List.not_mem_nil, List.nodup_nil⟩, ?_⟩
    intro other hother last hlast heq
    exact hkey (List.mem_singleton.mp hlast ▸ heq ▸ hother)

/-- Writing to a key without a value adds a row. -/
theorem length_set_of_get?_eq_none {rows : Table κ α} {key : κ} (value : α)
    (h : rows.get? key = none) : (rows.set key value).length = rows.length + 1 := by
  have hkeys := congrArg List.length (keys_set rows key value)
  rw [if_neg (get?_eq_none_iff.mp h)] at hkeys
  simpa [keys] using hkeys

end Table

end TreeLint
