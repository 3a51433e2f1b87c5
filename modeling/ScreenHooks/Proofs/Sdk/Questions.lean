/-
What readings ask about.

Following exports asks about modules at paths in normal form, and whether such
paths, with a probe or without, name files. These paths climb before they go
down. So a disk that has grown elsewhere gives the same answers, and a reading
ends on it as before.

* **`asks_congruence`** — all questions of a reading are of this kind;
* **`same_of_grown`** — the answers on a disk that has grown;
* **`Reading.on_grown`** — what a reading ends with there.
-/
import ScreenHooks.Proofs.Disk.Trees
import ScreenHooks.Proofs.Sdk.Fuel

namespace ScreenHooks

open Disk

/-! ### Paths that are asked about -/

namespace Path

/-- A normal form climbs first. -/
theorem downhill_normalize (p : Path) : p.normalize.Downhill := by
  obtain ⟨root, up, names, hnormal, hproper⟩ := normalize_shape p
  obtain ⟨idle, hsegments, hidle⟩ := spelled_segments root up hproper
  refine ⟨idle ++ (if up then [".."] else []), names, ?_, fun s hs => ?_, fun hup => ?_⟩
  · rw [hnormal, hsegments, legs, List.append_assoc]
  · rcases List.mem_append.1 hs with hs | hs
    · exact .inl (hidle s hs)
    · cases up with
      | true => exact .inr (List.mem_singleton.1 hs)
      | false => cases hs
  · exact (hproper _ hup).2.1 rfl

/-- What is written after a path, without a slash, leaves its climbs first. -/
theorem Downhill.extend {p : Path} (h : p.Downhill) {tail : String} (hslash : '/' ∉ tail.toList)
    (hup : p.leaf ++ tail ≠ "..") : Downhill ⟨p.text ++ tail⟩ := by
  obtain ⟨up, down, hsegments, hclimbs, hdown⟩ := h
  have hwhole : segments ⟨p.text ++ tail⟩ = p.segments.dropLast ++ [p.leaf ++ tail] :=
    segments_extend p.text hslash
  rw [hsegments] at hwhole
  cases hlast : down with
  | nil =>
    rw [hlast, List.append_nil] at hwhole
    refine ⟨up.dropLast, [p.leaf ++ tail], hwhole, fun s hs => hclimbs s (List.dropLast_subset _ hs), ?_⟩
    exact fun hmem => hup (List.mem_singleton.1 hmem).symm
  | cons first rest =>
    have hsome : down ≠ [] := by simp [hlast]
    rw [List.dropLast_append_of_ne_nil hsome, List.append_assoc] at hwhole
    refine ⟨up, _, hwhole, hclimbs, fun hmem => ?_⟩
    rcases List.mem_append.1 hmem with hmem | hmem
    · exact hdown (List.dropLast_subset _ hmem)
    · exact hup (List.mem_singleton.1 hmem).symm

theorem Downhill.below {p : Path} (h : p.Downhill) {name : String}
    (hname : ".." ∉ segments ⟨name⟩) : Downhill ⟨p.text ++ "/" ++ name⟩ := by
  obtain ⟨up, down, hsegments, hclimbs, hdown⟩ := h
  refine ⟨up, down ++ segments ⟨name⟩, ?_, hclimbs, fun hmem => ?_⟩
  · rw [segments_append, ← List.append_assoc, ← hsegments]
  · rcases List.mem_append.1 hmem with hmem | hmem
    · exact hdown hmem
    · exact hname hmem

end Path

namespace Sdk

open Script

variable {α β : Type} {d d' : Disk}

theorem Candidate.downhill {path : Path} (h : Candidate path) : path.Downhill := by
  obtain ⟨base, rfl | ⟨probe, hprobe, rfl⟩⟩ := h
  · exact base.downhill_normalize
  · have hbase := base.downhill_normalize
    have hfile : ∀ tail : String, '/' ∉ tail.toList → tail.toList.getLast? = some 's' ∨
        tail.toList.getLast? = some 'x' → Path.Downhill ⟨base.normalize.text ++ tail⟩ := by
      intro tail hslash hlast
      refine hbase.extend hslash fun hup => ?_
      have hchars := congrArg (·.toList.getLast?) hup
      simp only [String.toList_append, List.getLast?_append] at hchars
      rcases hlast with hlast | hlast <;> simp [hlast] at hchars
    have hindex : ∀ name : String, ".." ∉ Path.segments ⟨name⟩ →
        Path.Downhill ⟨base.normalize.text ++ ("/" ++ name)⟩ := by
      intro name hname
      rw [← String.append_assoc]
      exact hbase.below hname
    simp only [probes, List.mem_cons, List.not_mem_nil, or_false] at hprobe
    -- an ending is put on the last name, an index below it
    rcases hprobe with rfl | rfl | rfl | rfl | rfl | rfl
    · exact hfile ".ts" (by decide) (by decide)
    · exact hfile ".tsx" (by decide) (by decide)
    · exact hfile ".d.ts" (by decide) (by decide)
    · exact hindex "index.ts" (by decide)
    · exact hindex "index.tsx" (by decide)
    · exact hindex "index.d.ts" (by decide)

/-! ### Questions -/

/-- The path that a question is about. -/
def Question.path : Question → Path
  | file path => path
  | module key => key

/-- A disk that has grown elsewhere answers a question about a path that climbs
first as before. -/
theorem same_of_grown {places : List Place} (hgrown : Grown places d d') (htree : IsTree d)
    {q : Question} (hpath : q.path.Downhill) (hspot : d.spot q.path ∉ places) : q.Same d d' := by
  have hfile := hgrown.isFile_eq htree hpath hspot
  cases q with
  | file path => exact hfile
  | module key =>
    change d'.isFile key = d.isFile key at hfile
    show readModule d' key = readModule d key
    rw [readModule, readModule, hfile]
    by_cases h : d.isFile key = true
    · obtain ⟨contents, hcontents⟩ := isFile_iff_hasFile.1 h
      rw [readText_of_hasFile hcontents (hgrown.hasFile hspot hcontents)]
    · rw [if_neg h, if_neg h]

/-- Whether all questions of a reading are about paths that climb first. -/
def Reading.Downhill (x : Reading α) : Prop :=
  ∀ scope d, ∀ q ∈ (x.inquiry scope).asked d, q.path.Downhill

theorem Reading.Downhill.bind {x : Reading α} {f : α → Reading β} (hx : x.Downhill)
    (hf : ∀ a, (f a).Downhill) : (x >>= f).Downhill := by
  intro scope d q hq
  rw [Reading.inquiry_bind, Inquiry.asked_bind] at hq
  rcases List.mem_append.1 hq with hq | hq
  · exact hx scope d q hq
  · cases hon : (x.inquiry scope).on d with
    | error e =>
      rw [hon] at hq
      cases hq
    | ok a =>
      rw [hon] at hq
      exact hf a scope d q hq

theorem asks_congruence : Congruence fun _ x y => x = y ∧ Reading.Downhill x where
  pure a := ⟨rfl, fun _ _ _ hq => nomatch hq⟩
  throw e := ⟨rfl, fun _ _ _ hq => nomatch hq⟩
  bind := by
    rintro α β x _ f g ⟨rfl, hx⟩ hf
    have hfg : f = g := funext fun a => (hf a).1
    subst hfg
    exact ⟨rfl, hx.bind fun a => (hf a).2⟩
  root := by
    intro α f g h
    have hfg : f = g := funext fun root => (h root).1
    subst hfg
    exact ⟨rfl, fun scope => (h scope.root).2 scope⟩
  isFile path hpath := by
    refine ⟨rfl, fun scope d q hq => ?_⟩
    rw [List.mem_singleton.1 hq]
    exact hpath.downhill
  load path := by
    refine ⟨rfl, fun scope d q hq => ?_⟩
    rw [List.mem_singleton.1 hq]
    exact path.downhill_normalize

theorem exportedNames_downhill (path : Path) (typesToo : Bool) :
    (Project.exportedNames path typesToo).Downhill := by
  intro scope d q hq
  rw [Project.exportedNames, Reading.inquiry_read] at hq
  exact (asks_congruence.namesFrom scope.root typesToo scope.fuel [] .empty path).2 scope d q hq

/-- A reading ends on a disk that has grown elsewhere as it did before, by the same
questions, whatever fuel it is given there. -/
theorem Reading.on_grown {places : List Place} {x : Reading α} (hgrown : Grown places d d')
    (htree : IsTree d) (hdown : x.Downhill) (halike : ∀ e, x.Alike e x) {s s' : Scope}
    (hroot : s.root = s'.root) (hs : s.Enough d) (hs' : s'.Enough d')
    (hspots : ∀ q ∈ (x.inquiry s).asked d, d.spot q.path ∉ places) :
    (x.inquiry s').on d' = (x.inquiry s).on d ∧
      (x.inquiry s').asked d' = (x.inquiry s).asked d := by
  refine Reading.on_same halike hroot hs hs' fun q hq => ?_
  exact same_of_grown hgrown htree (hdown s d q hq) (hspots q hq)

end Sdk

end ScreenHooks
