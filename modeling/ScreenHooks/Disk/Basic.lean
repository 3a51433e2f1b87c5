/-
Disks: files and directories at places.

A place is the list of names from the root. A disk maps places to entries and
has a current place, from which relative paths start.

* **`at?_root`** — the root is a directory;
* **`at?_put`**, **`at?_put_of_ne`** — what writing an entry changes;
* **`at?_erase_of_not_below`** — what removing a tree keeps.
-/
import ScreenHooks.Table

namespace ScreenHooks

/-- The names from the root to an entry. -/
abbrev Place := List String

/-- What a file holds: text, or bytes that are no UTF-8 text. -/
inductive Contents where
  | text (text : String)
  | binary (bytes : List UInt8)
  deriving DecidableEq

/-- The contents with the given bytes. -/
def Contents.ofBytes (bytes : List UInt8) : Contents :=
  match String.fromUTF8? ⟨bytes.toArray⟩ with
  | some decoded => .text decoded
  | none => .binary bytes

/-- An entry of a disk. -/
inductive Entry where
  | file (contents : Contents)
  | directory
  deriving DecidableEq

/-- Files and directories, and the place from which relative paths start. -/
structure Disk where
  entries : List (Place × Entry) := []
  here : Place := []

namespace Disk

/-- The entry at a place. The root is always there. -/
def at? (d : Disk) (place : Place) : Option Entry :=
  if place = [] then some .directory else d.entries.lookup place

/-- Puts an entry at a place. -/
def put (d : Disk) (place : Place) (entry : Entry) : Disk :=
  { d with entries := Table.put d.entries place entry }

/-- Removes the entry at a place and all below it. -/
def erase (d : Disk) (place : Place) : Disk :=
  { d with entries := d.entries.filter fun e => !place.isPrefixOf e.1 }

/-- The files with their contents. -/
def files (d : Disk) : List (Place × Contents) :=
  d.entries.filterMap fun e => match e.2 with
    | .file contents => some (e.1, contents)
    | .directory => none

/-- The entries that are not the same on an earlier disk. -/
def changesSince (new old : Disk) : List (Place × Entry) :=
  new.entries.filter fun e => old.at? e.1 ≠ some e.2

/-! ### Laws -/

@[simp] theorem at?_root (d : Disk) : d.at? [] = some .directory := rfl

theorem at?_put (d : Disk) (place : Place) (entry : Entry) (h : place ≠ []) :
    (d.put place entry).at? place = some entry := by
  simp [at?, put, h, Table.lookup_put]

theorem at?_put_of_ne (d : Disk) {place other : Place} (entry : Entry) (h : other ≠ place) :
    (d.put place entry).at? other = d.at? other := by
  simp only [at?, put]
  split
  · rfl
  · exact Table.lookup_put_of_ne d.entries entry h

theorem at?_erase_of_not_below (d : Disk) {place other : Place}
    (h : place.isPrefixOf other = false) : (d.erase place).at? other = d.at? other := by
  simp only [at?, erase]
  split
  · rfl
  · induction d.entries with
    | nil => rfl
    | cons e rest ih =>
      obtain ⟨k, v⟩ := e
      by_cases hk : place.isPrefixOf k
      · have hne : (other == k) = false := by
          rw [beq_eq_false_iff_ne]
          rintro rfl
          simp [hk] at h
        simpa [List.filter, hk, List.lookup_cons, hne] using ih
      · simp only [List.filter, hk, Bool.not_false, List.lookup_cons, ih]

end Disk

end ScreenHooks
