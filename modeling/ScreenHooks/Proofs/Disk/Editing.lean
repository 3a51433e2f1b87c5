/-
Files that are overwritten.

The file at a place gets other contents, and nothing else changes. Every path names
a file, a directory or nothing as before, and all that is read elsewhere is the same;
what leads to the place reads the new contents.

* **`overwritten_isFile`**, **`overwritten_readText`** — what stays;
* **`readText_overwritten`** — what is read at the place;
* **`readModule_overwritten`** — modules elsewhere.
-/
import ScreenHooks.Proofs.Disk.Trees
import ScreenHooks.Sdk.Inquiry

namespace ScreenHooks

namespace Disk

variable {d : Disk} {place : Place} {old contents : Contents}

/-- A disk on which a file holds something else. -/
def overwritten (d : Disk) (place : Place) (contents : Contents) : Disk :=
  d.put place (.file contents)

theorem overwritten_here : (d.overwritten place contents).here = d.here := rfl

theorem overwritten_elsewhere {q : Place} (hq : q ≠ place) :
    (d.overwritten place contents).at? q = d.at? q := at?_put_of_ne d _ hq

section Overwritten

variable (hold : d.at? place = some (.file old))

include hold

theorem overwritten_at : (d.overwritten place contents).at? place = some (.file contents) := by
  refine at?_put d _ _ ?_
  rintro rfl
  cases hold

theorem overwritten_kind (q : Place) :
    SameKind (d.at? q) ((d.overwritten place contents).at? q) := by
  by_cases hq : q = place
  · subst hq
    rw [hold, overwritten_at hold]
    exact .file _ _
  · rw [overwritten_elsewhere hq]
    exact .refl _

theorem overwritten_isFile (p : Path) : (d.overwritten place contents).isFile p = d.isFile p :=
  (isFile_congr overwritten_here.symm fun c _ => overwritten_kind hold c).symm

theorem overwritten_reaches {p : Path} (h : d.Reaches p) :
    (d.overwritten place contents).Reaches p := by
  refine ⟨h.1, fun c hc => ?_⟩
  rw [route_congr overwritten_here] at hc
  have hkind : SameKind ((d.overwritten place contents).at? c) (d.at? c) :=
    (overwritten_kind hold c).symm
  rw [h.2 c hc] at hkind
  exact hkind.directory_eq

theorem overwritten_readText {p : Path} (hp : d.spot p ≠ place) :
    (d.overwritten place contents).readText p = d.readText p :=
  (readText_congr overwritten_here.symm (fun c _ => overwritten_kind hold c)
    (overwritten_elsewhere hp).symm).symm

theorem overwritten_readIfExists {p : Path} (hp : d.spot p ≠ place) :
    (d.overwritten place contents).readIfExists p = d.readIfExists p :=
  (readIfExists_congr overwritten_here.symm (fun c _ => overwritten_kind hold c)
    (overwritten_elsewhere hp).symm).symm

theorem overwritten_canonical (p : Path) :
    (d.overwritten place contents).canonical p = d.canonical p := by
  unfold canonical locate
  rw [start_congr overwritten_here, ← walk_congr fun c _ => overwritten_kind hold c]
  cases check p with
  | error e => rfl
  | ok u =>
    cases d.walk (d.start p) p.segments with
    | error e => rfl
    | ok q =>
      have hkind : SameKind (d.at? q) ((d.overwritten place contents).at? q) :=
        overwritten_kind hold q
      simp only [bind, Except.bind]
      generalize d.at? q = before, (d.overwritten place contents).at? q = after at hkind
      cases hkind <;> rfl

/-- A path that leads to the place reads the new contents. -/
theorem readText_overwritten {p : Path} {text : String} (hfile : d.isFile p = true)
    (hspot : d.spot p = place) : (d.overwritten place (.text text)).readText p = .ok text := by
  obtain ⟨hvalid, hdirs, -⟩ := isFile_iff.1 hfile
  refine readText_iff_hasFile.2 ⟨overwritten_reaches hold ⟨hvalid, hdirs⟩, ?_⟩
  rw [spot_congr overwritten_here, hspot, overwritten_at hold]

theorem overwritten_files : (d.overwritten place contents).files.length = d.files.length := by
  have hroot : place ≠ [] := by
    rintro rfl
    cases hold
  rw [at?, if_neg hroot] at hold
  obtain ⟨entries, here⟩ := d
  unfold overwritten put files
  simp only [] at hold ⊢
  -- the entry of the file is replaced where it stands
  induction entries with
  | nil => cases hold
  | cons entry rest ih =>
    obtain ⟨q, before⟩ := entry
    by_cases hq : q = place
    · subst hq
      rw [List.lookup_cons_self] at hold
      rw [Option.some.inj hold]
      simp [Table.put_cons_self]
    · have hlookup : (place == q) = false := by simp [Ne.symm hq]
      rw [List.lookup_cons, hlookup] at hold
      have hrest := ih hold
      simp only [Table.put_cons_of_ne hq, List.filterMap_cons]
      cases before with
      | directory => exact hrest
      | file contents => exact congrArg (· + 1) hrest

end Overwritten

end Disk

namespace Sdk

open Disk

/-- A module at another place is read as before. -/
theorem readModule_overwritten {d : Disk} {place : Place} {old contents : Contents}
    (hold : d.at? place = some (.file old)) {key : Path}
    (hkey : ¬ (d.isFile key = true ∧ d.spot key = place)) :
    readModule (d.overwritten place contents) key = readModule d key := by
  unfold readModule
  rw [overwritten_isFile hold]
  cases hfile : d.isFile key with
  | false => rfl
  | true => rw [overwritten_readText hold fun h => hkey ⟨hfile, h⟩]

end Sdk

end ScreenHooks
