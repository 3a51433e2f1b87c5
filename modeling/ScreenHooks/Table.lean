/-
Tables: pairs in order, one for each key.

Setting an entry keeps the place of its key, so the order of the keys is the
order of their first occurrence.

* **`keys_put`** — what setting an entry does to the keys;
* **`lookup_put`**, **`lookup_put_of_ne`** — what it does to the entries.
-/

namespace ScreenHooks.Table

variable {κ α : Type} [BEq κ]

/-- Sets an entry: an existing key keeps its place, a new one comes last. -/
def put : List (κ × α) → κ → α → List (κ × α)
  | [], key, value => [(key, value)]
  | (k, v) :: rest, key, value =>
    if k == key then (k, value) :: rest else (k, v) :: put rest key value

/-- Sets the entries of a list in turn. -/
def putAll (table : List (κ × α)) (entries : List (κ × α)) : List (κ × α) :=
  entries.foldl (fun acc entry => put acc entry.1 entry.2) table

/-- The entries of a list in which later ones override earlier ones. -/
def newest (entries : List (κ × α)) : List (κ × α) := putAll [] entries

/-- The entries of a list whose key no earlier one has. -/
def oldest : List (κ × α) → List (κ × α)
  | [] => []
  | (k, v) :: rest => (k, v) :: (oldest rest).filter (·.1 != k)

/-! ### Laws -/

theorem put_nil (key : κ) (value : α) : put [] key value = [(key, value)] := rfl

theorem oldest_cons (k : κ) (v : α) (rest : List (κ × α)) :
    oldest ((k, v) :: rest) = (k, v) :: (oldest rest).filter (·.1 != k) := rfl

variable [LawfulBEq κ]

theorem put_cons_self (k : κ) (v value : α) (rest : List (κ × α)) :
    put ((k, v) :: rest) k value = (k, value) :: rest := by simp [put]

theorem put_cons_of_ne {k key : κ} (h : k ≠ key) (v value : α) (rest : List (κ × α)) :
    put ((k, v) :: rest) key value = (k, v) :: put rest key value := by simp [put, h]

theorem keys_put (table : List (κ × α)) (key : κ) (value : α) [DecidableEq κ] :
    (put table key value).map (·.1) =
      if key ∈ table.map (·.1) then table.map (·.1) else table.map (·.1) ++ [key] := by
  induction table with
  | nil => simp [put_nil]
  | cons m rest ih =>
    obtain ⟨k, v⟩ := m
    by_cases h : k = key
    · subst h
      simp [put_cons_self]
    · have h' : ¬ key = k := fun e => h e.symm
      simp only [put_cons_of_ne h, List.map_cons, List.mem_cons, h', false_or, ih]
      split <;> rfl

theorem lookup_put (table : List (κ × α)) (key : κ) (value : α) :
    (put table key value).lookup key = some value := by
  induction table with
  | nil => simp [put_nil]
  | cons m rest ih =>
    obtain ⟨k, v⟩ := m
    by_cases h : k = key
    · subst h
      simp [put_cons_self]
    · have h' : (key == k) = false := by simp [Ne.symm h]
      simp [put_cons_of_ne h, List.lookup_cons, h', ih]

theorem lookup_put_of_ne (table : List (κ × α)) {key other : κ} (value : α) (h : other ≠ key) :
    (put table key value).lookup other = table.lookup other := by
  have hother : (other == key) = false := by simp [h]
  induction table with
  | nil => simp [put_nil, List.lookup_cons, hother]
  | cons m rest ih =>
    obtain ⟨k, v⟩ := m
    by_cases hk : k = key
    · subst hk
      simp [put_cons_self, List.lookup_cons, hother]
    · simp only [put_cons_of_ne hk, List.lookup_cons, ih]

end ScreenHooks.Table
