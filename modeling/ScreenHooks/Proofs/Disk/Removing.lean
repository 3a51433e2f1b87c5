/-
A disk without some of its files.

Directories stay where files are taken away. So a path names a file afterwards
exactly if it did before and its file is still there, and whatever could be read
or was absent still can or is.

* **`isFile_without`**, **`readText_without`** — what paths name and read;
* **`readIfExists_without`** — files that may be absent;
* **`canonical_without`** — what a path leads to.
-/
import ScreenHooks.Proofs.Disk.Places
import ScreenHooks.Proofs.Table

namespace ScreenHooks.Disk

variable {d : Disk} {gone : List Place} {p : Path} {q : Place}

/-- The disk without the entries at some places. -/
def without (d : Disk) (gone : List Place) : Disk :=
  { d with entries := d.entries.filter fun e => e.1 ∉ gone }

/-- Whether there is a file at each of some places. -/
def AllFiles (d : Disk) (places : List Place) : Prop :=
  ∀ q ∈ places, ∃ contents, d.at? q = some (.file contents)

theorem without_here (d : Disk) (gone : List Place) : (d.without gone).here = d.here := rfl

theorem lookup_without (entries : List (Place × Entry)) (gone : List Place) (q : Place) :
    (entries.filter fun e => e.1 ∉ gone).lookup q =
      if q ∈ gone then none else entries.lookup q := by
  rw [Table.lookup_filter entries (fun place => decide (place ∉ gone))]
  by_cases hq : q ∈ gone
  · rw [if_pos hq, if_neg (by simpa using hq)]
  · rw [if_neg hq, if_pos (by simpa using hq)]

theorem at?_without_of_not_mem (hq : q ∉ gone) : (d.without gone).at? q = d.at? q := by
  unfold at? without
  simp only [lookup_without, if_neg hq]

theorem at?_without_of_mem (hq : q ∈ gone) (hroot : q ≠ []) : (d.without gone).at? q = none := by
  unfold at? without
  simp only [lookup_without, if_pos hq, if_neg hroot]

theorem AllFiles.root_not_mem (hgone : d.AllFiles gone) : [] ∉ gone := by
  intro hroot
  obtain ⟨contents, hat⟩ := hgone [] hroot
  cases hat

/-! ### Entries -/

variable (hgone : d.AllFiles gone)

include hgone

theorem directory_without :
    (d.without gone).at? q = some .directory ↔ d.at? q = some .directory := by
  by_cases hq : q ∈ gone
  · obtain ⟨contents, hat⟩ := hgone q hq
    rw [hat, at?_without_of_mem hq fun h => hgone.root_not_mem (h ▸ hq)]
    simp
  · rw [at?_without_of_not_mem hq]

theorem file_without {contents : Contents} :
    (d.without gone).at? q = some (.file contents) ↔
      d.at? q = some (.file contents) ∧ q ∉ gone := by
  by_cases hq : q ∈ gone
  · rw [at?_without_of_mem hq fun h => hgone.root_not_mem (h ▸ hq)]
    simp [hq]
  · rw [at?_without_of_not_mem hq]
    simp [hq]

/-- What is absent stays so. -/
theorem absent_without (h : d.at? q = none) : (d.without gone).at? q = none := by
  by_cases hq : q ∈ gone
  · obtain ⟨contents, hat⟩ := hgone q hq
    rw [h] at hat
    cases hat
  · rw [at?_without_of_not_mem hq, h]

/-! ### Paths -/

theorem isFile_without :
    (d.without gone).isFile p = true ↔ d.isFile p = true ∧ d.spot p ∉ gone := by
  rw [isFile_iff, isFile_iff, route_congr (without_here d gone), spot_congr (without_here d gone)]
  simp only [directory_without hgone, file_without hgone]
  constructor
  · rintro ⟨hvalid, hdirs, contents, hat, hspot⟩
    exact ⟨⟨hvalid, hdirs, contents, hat⟩, hspot⟩
  · rintro ⟨⟨hvalid, hdirs, contents, hat⟩, hspot⟩
    exact ⟨hvalid, hdirs, contents, hat, hspot⟩

theorem readText_without {text : String} :
    (d.without gone).readText p = .ok text ↔ d.readText p = .ok text ∧ d.spot p ∉ gone := by
  rw [readText_ok_iff, readText_ok_iff, route_congr (without_here d gone),
    spot_congr (without_here d gone)]
  simp only [directory_without hgone, file_without hgone, and_assoc]

theorem reaches_without : (d.without gone).Reaches p ↔ d.Reaches p := by
  unfold Reaches
  rw [route_congr (without_here d gone)]
  simp only [directory_without hgone]

/-- A step that meets no file leads where it did. -/
theorem step_without {segment : String} (h : d.step q segment ≠ .error .notDirectory) :
    (d.without gone).step q segment = d.step q segment := by
  unfold step at h ⊢
  cases hat : d.at? q with
  | none => rw [absent_without hgone hat]
  | some entry =>
    cases entry with
    | directory => rw [(directory_without hgone).2 hat]
    | file contents =>
      rw [hat] at h
      exact absurd rfl h

theorem walk_without {segments : List String} (h : d.walk q segments ≠ .error .notDirectory) :
    (d.without gone).walk q segments = d.walk q segments := by
  induction segments generalizing q with
  | nil => rfl
  | cons segment rest ih =>
    rw [walk_cons] at h ⊢
    rw [walk_cons]
    cases hstep : d.step q segment with
    | error cause =>
      rw [hstep] at h
      rw [step_without hgone (by rw [hstep]; exact h), hstep]
      rfl
    | ok next =>
      rw [hstep] at h
      rw [step_without hgone (by rw [hstep]; simp), hstep]
      exact ih h

theorem canonical_without {path : Path} (h : d.canonical p = .ok path) (hspot : d.spot p ∉ gone) :
    (d.without gone).canonical p = .ok path := by
  unfold canonical at h ⊢
  cases hlocate : d.locate p with
  | error cause =>
    rw [hlocate] at h
    cases h
  | ok found =>
    obtain ⟨place, entry⟩ := found
    obtain ⟨hvalid, hdirs, rfl, hat⟩ := locate_ok_iff.1 hlocate
    have hagain : (d.without gone).locate p = .ok (d.spot p, entry) := by
      refine locate_ok_iff.2 ⟨hvalid, fun c hc => ?_, spot_congr (without_here d gone) p, ?_⟩
      · rw [route_congr (without_here d gone)] at hc
        exact (directory_without hgone).2 (hdirs c hc)
      · rw [at?_without_of_not_mem hspot, hat]
    rw [hagain, ← h, hlocate]

/-- A path that names nothing still names nothing. -/
theorem locate_without_notFound (h : d.locate p = .error .notFound) :
    (d.without gone).locate p = .error .notFound := by
  unfold locate at h ⊢
  rw [start_congr (without_here d gone)]
  cases hcheck : check p with
  | error cause =>
    rw [hcheck] at h
    exact h
  | ok u =>
    rw [hcheck] at h
    cases hwalk : d.walk (d.start p) p.segments with
    | error cause =>
      rw [hwalk] at h
      obtain rfl : cause = .notFound := Except.error.inj h
      rw [walk_without hgone (by rw [hwalk]; simp), hwalk]
      rfl
    | ok place =>
      rw [hwalk] at h
      rw [walk_without hgone (by rw [hwalk]; simp), hwalk]
      cases hat : d.at? place with
      | some entry => simp [hat, bind, Except.bind] at h
      | none => simp [absent_without hgone hat, bind, Except.bind]

/-- What could be read or was absent is so still, unless it has been taken away. -/
theorem readIfExists_without {existing : Option String} (h : d.readIfExists p = .ok existing)
    (hspot : d.spot p ∉ gone) : (d.without gone).readIfExists p = .ok existing := by
  cases existing with
  | some text =>
    obtain ⟨hreach, hat⟩ := readIfExists_some_iff.1 h
    refine readIfExists_some_iff.2 ⟨(reaches_without hgone).2 hreach, ?_⟩
    rw [spot_congr (without_here d gone), at?_without_of_not_mem hspot, hat]
  | none =>
    have hread : d.readText p = .error .notFound := by
      unfold readIfExists at h
      split at h
      · cases h
      · assumption
      · cases h
    -- what a file is read by fails only where the path names nothing
    have hlocate : d.locate p = .error .notFound := by
      unfold readText at hread
      cases hfound : d.locate p with
      | error cause =>
        rw [hfound] at hread
        exact congrArg Except.error (Except.error.inj hread)
      | ok found =>
        obtain ⟨place, entry⟩ := found
        rw [hfound] at hread
        cases entry with
        | directory => cases hread
        | file contents => cases contents <;> cases hread
    refine readIfExists_notFound _ _ ?_
    unfold readText
    rw [locate_without_notFound hgone hlocate]
    rfl

end ScreenHooks.Disk
