/-
Names in the order of their first occurrence.

Names that are added one after another stand as in the list that they come from, without
the repeats.

* **`Names.toList_ofList`** — names without repeats;
* **`Names.toList_insertAll_toList`** — names added to others;
* **`Names.insertAll_ofList`** — repeats may go before names are added.
-/
import Mathlib.Data.List.Induction
import ScreenHooks.Names

namespace ScreenHooks.Names

/-! ### The first names -/

/-- Names that are there stay at the front. -/
theorem prefix_insertAll (names : Names) (more : List String) :
    names.toList <+: (names.insertAll more).toList := by
  induction more generalizing names with
  | nil => exact List.prefix_rfl
  | cons a r ih =>
    refine List.IsPrefix.trans ?_ (ih (names.insert a))
    rw [toList_insert]
    split
    · exact List.prefix_rfl
    · exact List.prefix_append _ _

theorem head?_ofList (names : List String) : (ofList names).toList.head? = names.head? := by
  cases names with
  | nil => rfl
  | cons a r =>
    obtain ⟨rest, hrest⟩ := prefix_insertAll (empty.insert a) r
    show ((empty.insert a).insertAll r).toList.head? = some a
    rw [← hrest]
    simp [toList_insert, empty]

/-- A name in front changes nothing exactly if it is the first one already. -/
theorem ofList_cons_eq_iff {name : String} {rest : List String} :
    ofList (name :: rest) = ofList rest ↔ rest.head? = some name := by
  constructor
  · intro h
    rw [← head?_ofList, ← h, head?_ofList]
    rfl
  · intro h
    cases rest with
    | nil => cases h
    | cons a r =>
      obtain rfl := Option.some.inj h
      show ((empty.insert a).insert a).insertAll r = (empty.insert a).insertAll r
      have hagain : (empty.insert a).insert a = empty.insert a :=
        ext (by rw [toList_insert, if_pos (mem_def.1 (mem_insert.2 (.inr rfl)))])
      rw [hagain]

/-! ### Repeats -/

/-- Of what is new, the first comes first. -/
theorem eraseDups_new {α : Type} [DecidableEq α] {known : List α} {a : α} (h : a ∉ known)
    (rest : List α) : ((a :: rest).filter (· ∉ known)).eraseDups =
      a :: (rest.filter (· ∉ known ++ [a])).eraseDups := by
  have hsame : ∀ b, decide (b ∉ known ++ [a]) = (b != a && decide (b ∉ known)) := by
    intro b
    by_cases hb : b = a <;> simp [hb]
  rw [List.filter_cons_of_pos (by simpa using h), List.eraseDups_cons, List.filter_filter]
  simp only [hsame]
  rfl

/-- New names follow in the order of their first occurrence. -/
theorem toList_insertAll (names : Names) (more : List String) :
    (names.insertAll more).toList =
      names.toList ++ (more.filter (· ∉ names.toList)).eraseDups := by
  induction more generalizing names with
  | nil => simp [insertAll]
  | cons a r ih =>
    have hstep : names.insertAll (a :: r) = (names.insert a).insertAll r := rfl
    rw [hstep, ih, toList_insert]
    by_cases h : a ∈ names.toList
    · rw [if_pos h, List.filter_cons_of_neg (by simpa using h)]
    · rw [if_neg h, eraseDups_new h, List.append_assoc]
      rfl

theorem toList_ofList (names : List String) : (ofList names).toList = names.eraseDups := by
  have hnone : names.filter (· ∉ empty.toList) = names :=
    List.filter_eq_self.2 fun name _ => by simp [empty]
  rw [ofList, toList_insertAll, hnone]
  rfl

theorem eraseDups_of_nodup {names : List String} (h : names.Nodup) : names.eraseDups = names := by
  induction names with
  | nil => rfl
  | cons a r ih =>
    obtain ⟨ha, hr⟩ := List.nodup_cons.1 h
    have hother : ∀ name ∈ r, (!name == a) = true := by
      rintro name hname
      have hne : name ≠ a := fun heq => ha (heq ▸ hname)
      simpa using hne
    rw [List.eraseDups_cons, List.filter_eq_self.2 hother, ih hr]

/-- Distinct names follow those that are there, in their order. -/
theorem toList_insertAll_toList (names more : Names) :
    (names.insertAll more.toList).toList =
      names.toList ++ more.toList.filter (· ∉ names.toList) := by
  rw [toList_insertAll, eraseDups_of_nodup (more.nodup.filter _)]

/-- A list may be stripped of its repeats before it is added. -/
theorem insertAll_ofList (names : Names) (more : List String) :
    names.insertAll (ofList more).toList = names.insertAll more := by
  induction more using List.reverseRecOn with
  | nil => rfl
  | append_singleton r a ih =>
    have hlast : ofList (r ++ [a]) = (ofList r).insert a := insertAll_append _ _ _
    rw [hlast, toList_insert, insertAll_append, ← ih]
    split
    next hmem => exact (insertAll_of_mem fun name hname =>
        List.mem_singleton.1 hname ▸ mem_insertAll.2 (.inr hmem)).symm
    next => exact insertAll_append _ _ _

/-- Several lists may each be stripped of their repeats before they are added. -/
theorem insertAll_flatMap {α : Type} (names : Names) (xs : List α) (f : α → List String) :
    names.insertAll (xs.flatMap fun x => (ofList (f x)).toList) =
      names.insertAll (xs.flatMap f) := by
  induction xs generalizing names with
  | nil => rfl
  | cons x rest ih =>
    rw [List.flatMap_cons, List.flatMap_cons, insertAll_append, insertAll_append,
      insertAll_ofList, ih]

end ScreenHooks.Names
