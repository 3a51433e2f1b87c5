/-
Tables as finite maps.

A table with one entry for each key is determined by the order of its keys and
by what they look up. Setting several entries in turn keeps the keys that are
there, adds the others in the order of their first occurrence, and leaves at
each key the last entry that was set.

* **`lookup_oldest`** — which entry of a list a table keeps;
* **`ext`** — tables with the same keys and look-ups are the same;
* **`keys_putAll`**, **`lookup_putAll`** — setting several entries;
* **`putAll_putAll`** — setting them again changes nothing.
-/
import Mathlib.Logic.Basic
import ScreenHooks.Proofs.Names
import ScreenHooks.Table

namespace ScreenHooks.Table

variable {κ α : Type}

/-- The keys of a table, in order. -/
def keys (table : List (κ × α)) : List κ := table.map (·.1)

theorem keys_cons (entry : κ × α) (table : List (κ × α)) :
    keys (entry :: table) = entry.1 :: keys table := rfl

theorem keys_append (table more : List (κ × α)) : keys (table ++ more) = keys table ++ keys more :=
  List.map_append

/-- Entries that a condition on their keys takes away. -/
theorem lookup_filter [BEq κ] [LawfulBEq κ] (table : List (κ × α)) (stays : κ → Bool) (key : κ) :
    (table.filter (stays ·.1)).lookup key = if stays key then table.lookup key else none := by
  induction table with
  | nil => simp
  | cons entry rest ih =>
    obtain ⟨k, v⟩ := entry
    rw [List.filter_cons]
    by_cases hk : key = k
    · subst hk
      by_cases hstays : stays key = true
      · simp only [if_pos hstays, List.lookup_cons_self]
      · simp only [if_neg hstays, ih]
    · have hne : (key == k) = false := by simp [hk]
      rw [List.lookup_cons, hne, ← ih]
      by_cases hstays : stays k = true
      · simp only [if_pos hstays, List.lookup_cons, hne]
      · simp only [if_neg hstays]

variable [DecidableEq κ]

theorem keys_put_eq (table : List (κ × α)) (key : κ) (value : α) :
    keys (put table key value) = if key ∈ keys table then keys table else keys table ++ [key] :=
  keys_put table key value

theorem putAll_cons (table : List (κ × α)) (entry : κ × α) (entries : List (κ × α)) :
    putAll table (entry :: entries) = putAll (put table entry.1 entry.2) entries := rfl

/-! ### Look-ups -/

theorem lookup_eq_none_iff {table : List (κ × α)} {key : κ} :
    table.lookup key = none ↔ key ∉ keys table := by
  induction table with
  | nil => simp [keys]
  | cons entry rest ih =>
    obtain ⟨k, v⟩ := entry
    rw [keys_cons, List.mem_cons, not_or, ← ih]
    by_cases h : key = k
    · subst h
      simp
    · have hk : (key == k) = false := by simp [h]
      rw [List.lookup_cons, hk]
      simp [h]

theorem lookup_isSome_iff {table : List (κ × α)} {key : κ} :
    (table.lookup key).isSome = true ↔ key ∈ keys table := by
  rw [← not_iff_not, Bool.not_eq_true, Option.isSome_eq_false_iff, Option.isNone_iff_eq_none,
    lookup_eq_none_iff]

theorem mem_of_lookup {table : List (κ × α)} {key : κ} {value : α}
    (h : table.lookup key = some value) : (key, value) ∈ table := by
  obtain ⟨before, after, htable, -⟩ := List.lookup_eq_some_iff.1 h
  rw [htable]
  exact List.mem_append_right _ List.mem_cons_self

/-- A key looks up the first entry that a list has for it. -/
theorem lookup_oldest (entries : List (κ × α)) (key : κ) :
    (oldest entries).lookup key = entries.lookup key := by
  induction entries with
  | nil => rfl
  | cons entry rest ih =>
    obtain ⟨k, v⟩ := entry
    by_cases hk : key = k
    · subst hk
      rw [oldest_cons, List.lookup_cons_self, List.lookup_cons_self]
    · have hne : (key == k) = false := by simp [hk]
      rw [oldest_cons, List.lookup_cons, List.lookup_cons, hne, lookup_filter _ (· != k),
        if_pos (by simp [hk])]
      exact ih

theorem nodup_oldest (entries : List (κ × α)) : (keys (oldest entries)).Nodup := by
  induction entries with
  | nil => exact List.nodup_nil
  | cons entry rest ih =>
    rw [oldest_cons, keys_cons, List.nodup_cons]
    refine ⟨fun hmem => ?_, ih.sublist (List.filter_sublist.map _)⟩
    obtain ⟨other, hother, hkey⟩ := List.mem_map.1 hmem
    have hne := (List.mem_filter.1 hother).2
    simp [hkey] at hne

theorem lookup_eq_head? (table : List (κ × α)) (key : κ) :
    table.lookup key = ((table.filter (·.1 == key)).map (·.2)).head? := by
  induction table with
  | nil => rfl
  | cons entry rest ih =>
    obtain ⟨k, v⟩ := entry
    by_cases hk : k = key
    · subst hk
      rw [List.lookup_cons_self, List.filter_cons_of_pos (by simp)]
      rfl
    · have hne : (key == k) = false := by simp [Ne.symm hk]
      rw [List.lookup_cons, hne, List.filter_cons_of_neg (by simp [hk])]
      exact ih

/-- Tables with the same keys in the same order, each key once, are the same if
all look-ups are. -/
theorem ext {a b : List (κ × α)} (hkeys : keys a = keys b) (hnodup : (keys a).Nodup)
    (hlookup : ∀ key, a.lookup key = b.lookup key) : a = b := by
  induction a generalizing b with
  | nil =>
    cases b with
    | nil => rfl
    | cons entry rest => cases hkeys
  | cons entry rest ih =>
    cases b with
    | nil => cases hkeys
    | cons other more =>
      obtain ⟨k, v⟩ := entry
      obtain ⟨k', w⟩ := other
      rw [keys_cons, keys_cons] at hkeys
      obtain ⟨hk, hrest⟩ := List.cons.inj hkeys
      simp only at hk
      subst hk
      rw [keys_cons, List.nodup_cons] at hnodup
      have hvalue : v = w := by
        have h := hlookup k
        rw [List.lookup_cons_self, List.lookup_cons_self] at h
        exact Option.some.inj h
      subst hvalue
      -- the first key is looked up in neither rest
      have hmore : ∀ key, rest.lookup key = more.lookup key := by
        intro key
        by_cases h : key = k
        · subst h
          rw [lookup_eq_none_iff.2 hnodup.1, lookup_eq_none_iff.2 (hrest ▸ hnodup.1)]
        · have hne : (key == k) = false := by simp [h]
          have h := hlookup key
          rw [List.lookup_cons, List.lookup_cons, hne] at h
          exact h
      rw [ih hrest hnodup.2 hmore]

/-! ### Setting entries -/

theorem nodup_put {table : List (κ × α)} (h : (keys table).Nodup) (key : κ) (value : α) :
    (keys (put table key value)).Nodup := by
  rw [keys_put_eq]
  split
  · exact h
  next hnew =>
    refine List.nodup_append.2 ⟨h, by simp, fun a ha b hb => ?_⟩
    rw [List.mem_singleton] at hb
    rintro rfl
    exact hnew (hb ▸ ha)

theorem nodup_putAll {table : List (κ × α)} (h : (keys table).Nodup) (entries : List (κ × α)) :
    (keys (putAll table entries)).Nodup := by
  induction entries generalizing table with
  | nil => exact h
  | cons entry rest ih => exact ih (nodup_put h entry.1 entry.2)

theorem nodup_newest (entries : List (κ × α)) : (keys (newest entries)).Nodup :=
  nodup_putAll (by rw [keys]; exact List.nodup_nil) entries

theorem mem_put {table : List (κ × α)} {key : κ} {value : α} {entry : κ × α}
    (h : entry ∈ put table key value) : entry ∈ table ∨ entry = (key, value) := by
  induction table with
  | nil => exact .inr (List.mem_singleton.1 h)
  | cons first rest ih =>
    obtain ⟨k, v⟩ := first
    by_cases hk : k = key
    · subst hk
      rw [put_cons_self] at h
      rcases List.mem_cons.1 h with h | h
      · exact .inr h
      · exact .inl (List.mem_cons_of_mem _ h)
    · rw [put_cons_of_ne hk] at h
      rcases List.mem_cons.1 h with h | h
      · exact .inl (h ▸ List.mem_cons_self)
      · exact (ih h).imp_left (List.mem_cons_of_mem _)

theorem mem_putAll {table entries : List (κ × α)} {entry : κ × α}
    (h : entry ∈ putAll table entries) : entry ∈ table ∨ entry ∈ entries := by
  induction entries generalizing table with
  | nil => exact .inl h
  | cons first rest ih =>
    rcases ih h with h | h
    · rcases mem_put h with h | h
      · exact .inl h
      · exact .inr (h ▸ List.mem_cons_self)
    · exact .inr (List.mem_cons_of_mem _ h)

theorem mem_newest {entries : List (κ × α)} {entry : κ × α} (h : entry ∈ newest entries) :
    entry ∈ entries := (mem_putAll h).resolve_left List.not_mem_nil

/-- A new key comes last. -/
theorem put_new {table : List (κ × α)} {key : κ} (h : key ∉ keys table) (value : α) :
    put table key value = table ++ [(key, value)] := by
  induction table with
  | nil => rfl
  | cons first rest ih =>
    rw [keys_cons, List.mem_cons, not_or] at h
    rw [put_cons_of_ne (Ne.symm h.1), ih h.2]
    rfl

theorem putAll_new {table entries : List (κ × α)} (h : (keys (table ++ entries)).Nodup) :
    putAll table entries = table ++ entries := by
  induction entries generalizing table with
  | nil => exact (List.append_nil table).symm
  | cons first rest ih =>
    have hsplit : table ++ first :: rest = (table ++ [first]) ++ rest := by simp
    have hfirst : first.1 ∉ keys table := by
      rw [keys_append, List.nodup_append] at h
      exact fun hmem => h.2.2 _ hmem first.1 List.mem_cons_self rfl
    rw [hsplit] at h
    rw [putAll_cons, put_new hfirst, ih h, hsplit]

/-- Entries with one for each key are a table already. -/
theorem newest_of_nodup {entries : List (κ × α)} (h : (keys entries).Nodup) :
    newest entries = entries := putAll_new h

/-- The keys that are there stay; new ones follow in the order of their first
occurrence. -/
theorem keys_putAll (table entries : List (κ × α)) :
    keys (putAll table entries) =
      keys table ++ ((keys entries).filter (· ∉ keys table)).eraseDups := by
  induction entries generalizing table with
  | nil => simp [putAll, keys]
  | cons first rest ih =>
    rw [putAll_cons, ih, keys_put_eq, keys_cons]
    by_cases h : first.1 ∈ keys table
    · rw [if_pos h, List.filter_cons_of_neg (by simpa using h)]
    · rw [if_neg h, Names.eraseDups_new h, List.append_assoc]
      rfl

/-- A key looks up the last entry that was set for it. -/
theorem lookup_putAll (table entries : List (κ × α)) (key : κ) :
    (putAll table entries).lookup key =
      (entries.reverse.lookup key).or (table.lookup key) := by
  induction entries generalizing table with
  | nil => rfl
  | cons first rest ih =>
    obtain ⟨k, v⟩ := first
    have hfirst : (put table k v).lookup key = ([(k, v)].lookup key).or (table.lookup key) := by
      by_cases h : key = k
      · subst h
        rw [lookup_put, List.lookup_cons_self]
        rfl
      · have hne : (key == k) = false := by simp [h]
        rw [lookup_put_of_ne _ _ h, List.lookup_cons, hne]
        rfl
    rw [putAll_cons, ih, List.reverse_cons, List.lookup_append, Option.or_assoc, hfirst]

/-- Setting the same entries again changes nothing. -/
theorem putAll_putAll {table : List (κ × α)} (h : (keys table).Nodup) (entries : List (κ × α)) :
    putAll (putAll table entries) entries = putAll table entries := by
  have hnone : (keys entries).filter (· ∉ keys (putAll table entries)) = [] := by
    refine List.filter_eq_nil_iff.2 fun key hkey => ?_
    rw [decide_eq_true_eq, not_not, keys_putAll]
    by_cases hold : key ∈ keys table
    · exact List.mem_append_left _ hold
    · refine List.mem_append_right _ (List.mem_eraseDups.2 (List.mem_filter.2 ⟨hkey, ?_⟩))
      simpa using hold
  refine ext ?_ (nodup_putAll (nodup_putAll h entries) entries) fun key => ?_
  · rw [keys_putAll, hnone]
    exact List.append_nil _
  · rw [lookup_putAll, lookup_putAll]
    cases entries.reverse.lookup key <;> rfl

/-- Setting an entry that is there already changes nothing. -/
theorem put_of_lookup {table : List (κ × α)} {key : κ} {value : α}
    (h : table.lookup key = some value) : put table key value = table := by
  induction table with
  | nil => cases h
  | cons first rest ih =>
    obtain ⟨k, v⟩ := first
    by_cases hk : k = key
    · subst hk
      rw [List.lookup_cons_self] at h
      rw [put_cons_self, Option.some.inj h]
    · have hne : (key == k) = false := by simp [Ne.symm hk]
      rw [List.lookup_cons, hne] at h
      rw [put_cons_of_ne hk, ih h]

end ScreenHooks.Table
