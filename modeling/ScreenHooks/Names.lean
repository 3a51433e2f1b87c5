/-
Lists of distinct names in the order of their first occurrence.

`Names.insert` appends a name that is not yet there and keeps the list
otherwise; everything else is built from it.

* **`toList_insert`** — what an insertion does to the list;
* **`mem_insertAll`** — the members after a sequence of insertions;
* **`insertAll_of_mem`**, **`insertAll_append`** — inserting lists of names.
-/

namespace ScreenHooks

/-- Distinct names, first occurrences first. -/
structure Names where
  toList : List String
  nodup : toList.Nodup

namespace Names

@[ext]
theorem ext {a b : Names} (h : a.toList = b.toList) : a = b := by
  cases a; cases b; cases h; rfl

/-- No names. -/
def empty : Names := ⟨[], List.nodup_nil⟩

instance : Inhabited Names := ⟨empty⟩

instance : Membership String Names := ⟨fun names name => name ∈ names.toList⟩

instance (name : String) (names : Names) : Decidable (name ∈ names) :=
  inferInstanceAs (Decidable (name ∈ names.toList))

theorem mem_def {name : String} {names : Names} : name ∈ names ↔ name ∈ names.toList := Iff.rfl

/-- Whether `name` is one of the names. -/
def contains (names : Names) (name : String) : Bool := names.toList.contains name

/-- Whether there are no names. -/
def isEmpty (names : Names) : Bool := names.toList.isEmpty

/-- The number of names. -/
def size (names : Names) : Nat := names.toList.length

/-- Adds a name at the end unless it is there already. -/
def insert (names : Names) (name : String) : Names :=
  if h : name ∈ names.toList then names
  else ⟨names.toList ++ [name], by
    rw [List.nodup_append]
    refine ⟨names.nodup, by simp, fun a ha b hb => ?_⟩
    rw [List.mem_singleton] at hb
    rintro rfl
    exact h (hb ▸ ha)⟩

/-- Adds the names of a list in turn. -/
def insertAll (names : Names) (more : List String) : Names := more.foldl insert names

/-- The distinct members of a list. -/
def ofList (names : List String) : Names := empty.insertAll names

/-- Removes a name; the others keep their order. -/
def erase (names : Names) (name : String) : Names :=
  ⟨names.toList.filter (· != name), names.nodup.filter _⟩

/-! ### Laws -/

theorem toList_insert (names : Names) (name : String) :
    (names.insert name).toList =
      if name ∈ names.toList then names.toList else names.toList ++ [name] := by
  unfold insert
  split <;> rfl

theorem mem_insert {names : Names} {name x : String} :
    x ∈ names.insert name ↔ x ∈ names ∨ x = name := by
  rw [mem_def, toList_insert]
  split
  next h =>
    constructor
    · exact Or.inl
    · rintro (hx | rfl)
      · exact hx
      · exact h
  next => simp [mem_def]

theorem mem_insertAll {names : Names} {more : List String} {x : String} :
    x ∈ names.insertAll more ↔ x ∈ names ∨ x ∈ more := by
  induction more generalizing names with
  | nil => simp [insertAll]
  | cons a r ih =>
    have hstep : names.insertAll (a :: r) = (names.insert a).insertAll r := rfl
    rw [hstep, ih, mem_insert, List.mem_cons, or_assoc]

/-- Names that are there already change nothing. -/
theorem insertAll_of_mem {names : Names} {more : List String} (h : ∀ name ∈ more, name ∈ names) :
    names.insertAll more = names := by
  induction more with
  | nil => rfl
  | cons a r ih =>
    have hfirst : names.insert a = names := ext (by
      rw [toList_insert, if_pos (mem_def.1 (h a List.mem_cons_self))])
    show (names.insert a).insertAll r = names
    rw [hfirst]
    exact ih fun name hname => h name (List.mem_cons_of_mem _ hname)

theorem insertAll_append (names : Names) (a b : List String) :
    names.insertAll (a ++ b) = (names.insertAll a).insertAll b := by
  simp [insertAll, List.foldl_append]

theorem mem_ofList {xs : List String} {x : String} : x ∈ ofList xs ↔ x ∈ xs := by
  rw [ofList, mem_insertAll]
  simp [mem_def, empty]

end Names

end ScreenHooks
