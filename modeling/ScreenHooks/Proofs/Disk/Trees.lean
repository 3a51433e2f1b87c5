/-
Disks that are trees, and what their paths keep.

On a tree everything above an entry is a directory. A path that does all its
climbing first leads through places above its start and above its own place
only, so on a tree it reaches a file that is there. What it names stays when a
disk grows by files and directories elsewhere; a path that goes down and climbs
again keeps its file only if none of the directories on its way is new.

* **`route_downhill`** — the places that a path leads through;
* **`Grown.file_iff`**, **`Grown.isFile_eq`** — what grown disks hold at a path.
-/
import ScreenHooks.Proofs.Disk.Writing

namespace ScreenHooks

/-- Whether a path has climbed all it climbs before it goes down. -/
def Path.Downhill (p : Path) : Prop :=
  ∃ up down, p.segments = up ++ down ∧ (∀ s ∈ up, Path.isIdle s = true ∨ s = "..") ∧ ".." ∉ down

theorem Path.downhill_of_no_climb {p : Path} (h : ".." ∉ p.segments) : p.Downhill :=
  ⟨[], p.segments, rfl, by simp, h⟩

namespace Disk

open Path

/-! ### Places on the way -/

/-- Climbing leads through places above the start. -/
theorem prefix_of_up {segments : List String}
    (h : ∀ s ∈ segments, Path.isIdle s = true ∨ s = "..") (place : Place) :
    spell place segments <+: place ∧ ∀ c ∈ crossed place segments, c <+: place := by
  induction segments generalizing place with
  | nil => exact ⟨List.prefix_rfl, by simp [crossed]⟩
  | cons segment rest ih =>
    have hnext : advance place segment <+: place := by
      unfold advance
      split
      · exact List.prefix_rfl
      next hbusy =>
        rw [if_pos ((h segment List.mem_cons_self).resolve_left hbusy)]
        exact List.dropLast_prefix place
    obtain ⟨hspell, hcrossed⟩ := ih (fun s hs => h s (List.mem_cons_of_mem _ hs)) (advance place segment)
    refine ⟨hspell.trans hnext, fun c hc => ?_⟩
    rcases List.mem_cons.1 hc with rfl | hc
    · exact List.prefix_rfl
    · exact (hcrossed c hc).trans hnext

/-- Going down leads through places above the end. -/
theorem prefix_of_down {segments : List String} (h : ".." ∉ segments) (place : Place) :
    place <+: spell place segments ∧ ∀ c ∈ crossed place segments, c <+: spell place segments := by
  induction segments generalizing place with
  | nil => exact ⟨List.prefix_rfl, by simp [crossed]⟩
  | cons segment rest ih =>
    have hnext : place <+: advance place segment := by
      unfold advance
      split
      · exact List.prefix_rfl
      · have hup : segment ≠ ".." := by
          rintro rfl
          exact h List.mem_cons_self
        rw [if_neg hup]
        exact List.prefix_append place [segment]
    obtain ⟨hspell, hcrossed⟩ := ih (fun hup => h (List.mem_cons_of_mem _ hup)) (advance place segment)
    have hplace : place <+: spell place (segment :: rest) := hnext.trans hspell
    refine ⟨hplace, fun c hc => ?_⟩
    rcases List.mem_cons.1 hc with rfl | hc
    · exact hplace
    · exact hcrossed c hc

/-- A path that climbs first leads through places above its start or its own. -/
theorem route_downhill {p : Path} (h : p.Downhill) (d : Disk) {c : Place} (hc : c ∈ d.route p) :
    c <+: d.start p ∨ c <+: d.spot p := by
  obtain ⟨up, down, hsegments, hup, hdown⟩ := h
  rw [route, hsegments, crossed_append] at hc
  rw [spot, hsegments, spell_append]
  rcases List.mem_append.1 hc with hc | hc
  · exact .inl ((prefix_of_up hup _).2 c hc)
  · exact .inr ((prefix_of_down hdown _).2 c hc)

/-! ### Trees -/

/-- Whether everything above an entry is a directory, and so is the place that
relative paths start from. -/
structure IsTree (d : Disk) : Prop where
  here : d.at? d.here = some .directory
  above : ∀ q entry, d.at? q = some entry → ∀ c, c <+: q → c ≠ q → d.at? c = some .directory

/-- Whether a disk is a tree can be told from what is above its entries. -/
theorem isTree_of_entries {d : Disk} (hhere : d.at? d.here = some .directory)
    (h : ∀ e ∈ d.entries, ∀ n < e.1.length, d.at? (e.1.take n) = some .directory) : IsTree d := by
  refine ⟨hhere, fun q entry hat c hc hne => ?_⟩
  have hlength : c.length < q.length := by
    refine Nat.lt_of_le_of_ne hc.length_le fun heq => hne (hc.eq_of_length heq)
  have hroot : q ≠ [] := by
    rintro rfl
    cases hlength
  rw [at?, if_neg hroot] at hat
  obtain ⟨before, after, hentries, -⟩ := List.lookup_eq_some_iff.1 hat
  have hmem : (q, entry) ∈ d.entries := by
    rw [hentries]
    exact List.mem_append_right _ List.mem_cons_self
  rw [List.prefix_iff_eq_take.1 hc]
  exact h _ hmem _ hlength

/-- Everything above the start of a path is a directory. -/
theorem IsTree.start {d : Disk} (h : IsTree d) (p : Path) {c : Place} (hc : c <+: d.start p) :
    d.at? c = some .directory := by
  rw [Disk.start] at hc
  split at hc
  · rw [List.prefix_nil.1 hc]
    exact at?_root d
  · by_cases hhere : c = d.here
    · rw [hhere]
      exact h.here
    · exact h.above _ _ h.here c hc hhere

/-! ### Files at paths -/

/-- Whether a path leads to a file with some contents. -/
def HasFile (d : Disk) (p : Path) (contents : Contents) : Prop :=
  d.Reaches p ∧ d.at? (d.spot p) = some (.file contents)

theorem isFile_iff_hasFile {d : Disk} {p : Path} :
    d.isFile p = true ↔ ∃ contents, d.HasFile p contents := by
  rw [isFile_iff]
  constructor
  · rintro ⟨hvalid, hdirs, contents, hat⟩
    exact ⟨contents, ⟨hvalid, hdirs⟩, hat⟩
  · rintro ⟨contents, ⟨hvalid, hdirs⟩, hat⟩
    exact ⟨hvalid, hdirs, contents, hat⟩

theorem readText_iff_hasFile {d : Disk} {p : Path} {text : String} :
    d.readText p = .ok text ↔ d.HasFile p (.text text) := by
  rw [readText_ok_iff, HasFile, Reaches, and_assoc]

/-- What is read of a file depends on its contents alone. -/
theorem readText_of_hasFile {d d' : Disk} {p : Path} {contents : Contents}
    (h : d.HasFile p contents) (h' : d'.HasFile p contents) : d'.readText p = d.readText p := by
  rw [readText_of_reaches h.1, readText_of_reaches h'.1, h.2, h'.2]

/-! ### Growth -/

/-- A disk with other files at some of the given places, and perhaps with more
directories. -/
structure Grown (places : List Place) (old new : Disk) : Prop where
  here_eq : new.here = old.here
  directory : ∀ q, old.at? q = some .directory → new.at? q = some .directory
  file : ∀ q contents, old.at? q = some (.file contents) →
    ∃ other, new.at? q = some (.file other)
  elsewhere : ∀ q, q ∉ places → new.at? q = old.at? q ∨
    (old.at? q = none ∧ new.at? q = some .directory)

namespace Grown

variable {places : List Place} {d d' : Disk} {p : Path}

/-- The files away from the places are the same. -/
theorem at_file_iff (h : Grown places d d') {q : Place} (hq : q ∉ places) {contents : Contents} :
    d'.at? q = some (.file contents) ↔ d.at? q = some (.file contents) := by
  rcases h.elsewhere q hq with heq | ⟨hnone, hdir⟩
  · rw [heq]
  · rw [hnone, hdir]
    simp

/-- A path keeps a file that nothing was written over. -/
theorem hasFile (h : Grown places d d') (hspot : d.spot p ∉ places) {contents : Contents}
    (hfile : d.HasFile p contents) : d'.HasFile p contents := by
  obtain ⟨⟨hvalid, hdirs⟩, hat⟩ := hfile
  refine ⟨⟨hvalid, fun c hc => ?_⟩, ?_⟩
  · rw [route_congr h.here_eq] at hc
    exact h.directory c (hdirs c hc)
  · rw [spot_congr h.here_eq]
    exact (h.at_file_iff hspot).2 hat

/-- A path leads to the same file as before if the directories on its way were there. -/
theorem file_iff_of_way (h : Grown places d d') (hspot : d.spot p ∉ places) {contents : Contents}
    (hway : d.at? (d.spot p) = some (.file contents) →
      ∀ c ∈ d.route p, d'.at? c = some .directory → d.at? c = some .directory) :
    d'.HasFile p contents ↔ d.HasFile p contents := by
  refine ⟨?_, h.hasFile hspot⟩
  rintro ⟨⟨hvalid, hdirs⟩, hat⟩
  rw [route_congr h.here_eq] at hdirs
  rw [spot_congr h.here_eq] at hat
  have hfile := (h.at_file_iff hspot).1 hat
  exact ⟨⟨hvalid, fun c hc => hway hfile c hc (hdirs c hc)⟩, hfile⟩

/-- A path leads to the same file as before if no directory on its way is new. -/
theorem file_iff (h : Grown places d d') (hspot : d.spot p ∉ places)
    (hway : ∀ c ∈ d.route p, d.at? c = none → d'.at? c ≠ some .directory) {contents : Contents} :
    d'.HasFile p contents ↔ d.HasFile p contents := by
  refine h.file_iff_of_way hspot fun _ c hc hnew => ?_
  cases hold : d.at? c with
  | none => exact absurd hnew (hway c hc hold)
  | some entry =>
    cases entry with
    | directory => rfl
    | file other =>
      obtain ⟨more, hmore⟩ := h.file c other hold
      rw [hnew] at hmore
      cases hmore

/-- On a tree a path that climbs first leads to the same file as before. -/
theorem file_iff_of_downhill (h : Grown places d d') (htree : IsTree d) (hp : p.Downhill)
    (hspot : d.spot p ∉ places) {contents : Contents} :
    d'.HasFile p contents ↔ d.HasFile p contents := by
  refine h.file_iff_of_way hspot fun hfile c hc hnew => ?_
  rcases route_downhill hp d hc with hc' | hc'
  · exact htree.start p hc'
  · refine htree.above _ _ hfile c hc' ?_
    rintro rfl
    obtain ⟨other, hother⟩ := h.file _ contents hfile
    rw [hnew] at hother
    cases hother

theorem isFile_eq (h : Grown places d d') (htree : IsTree d) (hp : p.Downhill)
    (hspot : d.spot p ∉ places) : d'.isFile p = d.isFile p := by
  rw [Bool.eq_iff_iff, isFile_iff_hasFile, isFile_iff_hasFile]
  simp only [h.file_iff_of_downhill htree hp hspot]

/-- What a path leads to is still there. -/
theorem locate_stays (h : Grown places d d') {q : Place} {entry : Entry}
    (hlocate : d.locate p = .ok (q, entry)) : ∃ other, d'.locate p = .ok (q, other) := by
  obtain ⟨hvalid, hdirs, rfl, hat⟩ := locate_ok_iff.1 hlocate
  have hkept : ∃ other, d'.at? (d.spot p) = some other := by
    cases entry with
    | directory => exact ⟨_, h.directory _ hat⟩
    | file contents =>
      obtain ⟨other, hother⟩ := h.file _ _ hat
      exact ⟨_, hother⟩
  obtain ⟨other, hother⟩ := hkept
  refine ⟨other, locate_ok_iff.2 ⟨hvalid, fun c hc => ?_, (spot_congr h.here_eq p).symm, hother⟩⟩
  rw [route_congr h.here_eq] at hc
  exact h.directory c (hdirs c hc)

end Grown

end Disk

end ScreenHooks
