/-
Disks on which writes succeed.

A disk is clear for some paths if none of them is blocked, neither by what is
there nor by another one of them. A write to one of the paths keeps the disk
clear, and it succeeds unless it meets a file that is no text. The other way
round, a disk is clear for the targets of writes that have all succeeded.

* **`Clear.write`** — a write on a clear disk;
* **`clear_of_succeeds`** — a disk on which writes have succeeded was clear.
-/
import ScreenHooks.Proofs.Output.Writes

namespace ScreenHooks.Output

open Disk

/-- Whether files can be written at all paths: no file stands on the way to one,
no directory in its place, and none is on the way to another. -/
structure Clear (d : Disk) (paths : List Path) : Prop where
  start : ∀ p ∈ paths, d.at? (d.start p) = some .directory
  valid : ∀ p ∈ paths, Valid p
  named : ∀ p ∈ paths, Path.Named p
  route : ∀ p ∈ paths, ∀ c ∈ d.route p, ∀ contents, d.at? c ≠ some (.file contents)
  free : ∀ p ∈ paths, d.at? (d.spot p) ≠ some .directory
  apart : ∀ p ∈ paths, ∀ q ∈ paths, d.spot p ∉ d.route q

/-- Whether a disk is clear for paths can be told from the entries on their way. -/
theorem clear_of_forall {d : Disk} {paths : List Path}
    (h : ∀ p ∈ paths, d.at? (d.start p) = some .directory ∧ Valid p ∧ Path.Named p ∧
      (∀ c ∈ d.route p, d.at? c = none ∨ d.at? c = some .directory) ∧
      d.at? (d.spot p) ≠ some .directory ∧ ∀ q ∈ paths, d.spot p ∉ d.route q) : Clear d paths where
  start p hp := (h p hp).1
  valid p hp := (h p hp).2.1
  named p hp := (h p hp).2.2.1
  route p hp c hc contents hat := by
    rcases (h p hp).2.2.2.1 c hc with hc | hc <;> rw [hc] at hat <;> cases hat
  free p hp := (h p hp).2.2.2.2.1
  apart p hp := (h p hp).2.2.2.2.2

/-- Whether there is a file at a place that is no text. -/
def Illegible (d : Disk) (place : Place) : Prop := ∃ bytes, d.at? place = some (.file (.binary bytes))

/-- Where nothing blocks a path that does not lead to its place, a directory is
missing, and nothing is read. -/
theorem readIfExists_unreached {d : Disk} {p : Path} (hvalid : Valid p)
    (hroute : ∀ c ∈ d.route p, ∀ contents, d.at? c ≠ some (.file contents))
    (hreach : ¬ d.Reaches p) : d.readIfExists p = .ok none := by
  rcases walk_clear hvalid.2 hroute with hwalk | ⟨hwalk, -⟩
  · exact absurd ⟨hvalid, (walk_ok_iff.1 hwalk).2.1⟩ hreach
  · have hlocate : d.locate p = .error .notFound := by
      unfold locate
      rw [hvalid.1, hwalk]
      rfl
    refine readIfExists_notFound d p ?_
    unfold readText
    rw [hlocate]
    rfl

/-- Where nothing blocks a path and there is no illegible file, it can be read. -/
theorem readIfExists_clear {d : Disk} {p : Path} (hvalid : Valid p)
    (hroute : ∀ c ∈ d.route p, ∀ contents, d.at? c ≠ some (.file contents))
    (hfree : d.at? (d.spot p) ≠ some .directory) (hlegible : ¬ Illegible d (d.spot p)) :
    ∃ existing, d.readIfExists p = .ok existing := by
  by_cases hreach : d.Reaches p
  · have hread := readText_of_reaches hreach
    unfold readIfExists
    rw [hread]
    cases hat : d.at? (d.spot p) with
    | none => exact ⟨none, rfl⟩
    | some entry =>
      cases entry with
      | directory => exact absurd hat hfree
      | file contents =>
        cases contents with
        | text text => exact ⟨some text, rfl⟩
        | binary bytes => exact absurd ⟨bytes, hat⟩ hlegible
  · exact ⟨none, readIfExists_unreached hvalid hroute hreach⟩

namespace Clear

variable {d : Disk} {paths : List Path} {w : Writer} {a : Artifact}

/-- The way to the directory of a named path is the route of the path. -/
theorem mem_route (h : Clear d paths) {p : Path} (hp : p ∈ paths) {c : Place}
    (hc : c ∈ d.way (directoryOf p)) : c ∈ d.route p :=
  ((directoryOf_named (h.named p hp)).2.2.2 d c).1 hc

/-- A write to one of the paths keeps the disk clear. -/
theorem write (h : Clear d paths) (ha : w.target a ∈ paths) :
    Clear ((w.write a).apply d).2 paths := by
  have heffect := write_effect w a d
  have hhere := heffect.here_eq
  -- what is new is a directory on the route of the target, or the file itself
  have hentry : ∀ q, q ≠ d.spot (w.target a) →
      ((w.write a).apply d).2.at? q = d.at? q ∨
        (q ∈ d.route (w.target a) ∧ ((w.write a).apply d).2.at? q = some .directory) := by
    intro q hq
    rcases heffect.elsewhere hq with heq | ⟨-, hmem, hdir⟩
    · exact .inl heq
    · exact .inr ⟨h.mem_route ha hmem, hdir⟩
  have hspot : ((w.write a).apply d).2.at? (d.spot (w.target a)) ≠ some .directory := by
    have hkept : ∀ mid, Paved (d.way (directoryOf (w.target a))) d mid →
        mid.at? (d.spot (w.target a)) ≠ some .directory := by
      intro mid hpaved
      rcases hpaved.entry (d.spot (w.target a)) with heq | ⟨-, hmem, -⟩
      · rw [heq]
        exact h.free _ ha
      · exact absurd (h.mem_route ha hmem) (h.apart _ ha _ ha)
    generalize (w.write a).apply d = r at heffect
    cases heffect with
    | unread => exact h.free _ ha
    | kept => exact h.free _ ha
    | failed _ _ _ mid hpaved => exact hkept mid hpaved
    | replaced _ _ _ mid hpaved hplace =>
      show (mid.put _ _).at? _ ≠ _
      rw [at?_put mid _ _ (spot_named_ne (h.named _ ha) d)]
      simp
  refine ⟨?_, h.valid, h.named, ?_, ?_, ?_⟩
  · intro p hp
    rw [start_congr hhere]
    exact heffect.directory_stays (h.start p hp)
  · intro p hp c hc contents hat
    rw [route_congr hhere] at hc
    have hne : c ≠ d.spot (w.target a) := by
      rintro rfl
      exact h.apart _ ha p hp hc
    exact h.route p hp c hc contents ((heffect.file_elsewhere hne).1 hat)
  · intro p hp
    rw [spot_congr hhere]
    by_cases hsame : d.spot p = d.spot (w.target a)
    · rw [hsame]
      exact hspot
    · rcases hentry _ hsame with heq | ⟨hmem, -⟩
      · rw [heq]
        exact h.free p hp
      · exact absurd hmem (h.apart p hp _ ha)
  · intro p hp q hq
    rw [spot_congr hhere, route_congr hhere]
    exact h.apart p hp q hq

/-- A write to one of the paths succeeds where there is no illegible file. -/
theorem succeeds (h : Clear d paths) (ha : w.target a ∈ paths)
    (hlegible : ¬ Illegible d (d.spot (w.target a))) : ∃ o, ((w.write a).apply d).1 = .ok o := by
  obtain ⟨existing, hread⟩ :=
    readIfExists_clear (h.valid _ ha) (h.route _ ha) (h.free _ ha) hlegible
  unfold Writer.write
  rw [apply_bind, apply_get]
  simp only [hread]
  cases hchanges : Writer.changes (w.outcome a existing) with
  | false => exact ⟨w.outcome a existing, by simp⟩
  | true =>
    obtain ⟨mid, -, hreplace⟩ := replaceFile_ok a.content (h.valid _ ha) (h.named _ ha) (h.start _ ha)
      (h.route _ ha) (h.free _ ha) (h.apart _ ha _ ha)
    refine ⟨w.outcome a existing, ?_⟩
    simp only [if_true]
    rw [apply_bind, hreplace]
    rfl

end Clear

/-! ### Back from the disk afterwards -/

/-- Whether the directory that relative paths start from is there, with all
directories above it. -/
def Grounded (d : Disk) : Prop := ∀ q, q <+: d.here → d.at? q = some .directory

/-- On a grounded disk everything above a place on the way is a directory. -/
theorem above_directory {d : Disk} {place c q : Place} {segments : List String}
    (hplace : ∀ q, q <+: place → d.at? q = some .directory)
    (hdirs : ∀ c ∈ crossed place segments, d.at? c = some .directory)
    (hc : c ∈ crossed place segments) (hq : q <+: c) : d.at? q = some .directory := by
  induction segments generalizing place with
  | nil => cases hc
  | cons segment rest ih =>
    rcases List.mem_cons.1 hc with rfl | hc
    · exact hplace q hq
    · have hrest : ∀ e ∈ crossed (advance place segment) rest, d.at? e = some .directory :=
        fun e he => hdirs e (List.mem_cons_of_mem _ he)
      refine ih ?_ hrest hc
      intro r hr
      have hnext : d.at? (advance place segment) = some .directory := by
        cases rest with
        | nil => cases hc
        | cons => exact hrest _ List.mem_cons_self
      -- the next place is above this one, or one name below it
      unfold advance at hr hnext
      split at hr
      · exact hplace r hr
      · split at hr
        · exact hplace r (hr.trans (List.dropLast_prefix place))
        · rcases List.prefix_concat_iff.1 hr with rfl | hr
          · simpa [*] using hnext
          · exact hplace r hr

/-- On a grounded disk, the path of a file ends in a name. -/
theorem named_of_isFile {d : Disk} {p : Path} (hground : Grounded d) (h : d.isFile p = true) :
    Path.Named p := by
  obtain ⟨-, hdirs, contents, hat⟩ := isFile_iff.1 h
  have hstart : ∀ q, q <+: d.start p → d.at? q = some .directory := by
    intro q hq
    unfold start at hq
    split at hq
    · rw [List.prefix_nil.1 hq]
      exact at?_root d
    · exact hground q hq
  -- the last segment leads from this directory
  have hsplit : d.route p =
      crossed (d.start p) p.segments.dropLast ++ [spell (d.start p) p.segments.dropLast] := by
    rw [route]
    conv_lhs => rw [Path.segments_leaf p]
    rw [crossed_append]
    rfl
  have hlast : spell (d.start p) p.segments.dropLast ∈ d.route p := by
    rw [hsplit]
    simp
  have hspot : d.spot p = advance (spell (d.start p) p.segments.dropLast) p.leaf := by
    rw [spot]
    conv_lhs => rw [Path.segments_leaf p]
    rw [spell_append]
    rfl
  have hfile : ∀ q, q <+: spell (d.start p) p.segments.dropLast → d.spot p ≠ q := by
    intro q hq heq
    rw [heq, above_directory hstart hdirs hlast hq] at hat
    cases hat
  refine ⟨?_, ?_⟩
  · rw [Bool.eq_false_iff]
    intro hidle
    refine hfile _ List.prefix_rfl ?_
    rw [hspot, advance, if_pos hidle]
  · intro hup
    refine hfile _ (List.dropLast_prefix _) ?_
    rw [hspot, hup]
    rfl

/-- After a successful write, unless it is a dry run, the target is a file. -/
theorem isFile_of_success {w : Writer} {a : Artifact} {d : Disk} {o : WriteOutcome}
    (hdry : w.dryRun = false) (ho : ((w.write a).apply d).1 = .ok o) :
    ((w.write a).apply d).2.isFile (w.target a) = true := by
  obtain ⟨text, htext, -⟩ := text_left hdry ho
  obtain ⟨hvalid, hdirs, hat⟩ := readText_ok_iff.1 htext
  exact isFile_iff.2 ⟨hvalid, hdirs, _, hat⟩

/-- A write keeps files as files. -/
theorem file_stays {w : Writer} {a : Artifact} {d : Disk} {q : Place}
    (h : ∃ contents, d.at? q = some (.file contents)) :
    ∃ contents, ((w.write a).apply d).2.at? q = some (.file contents) := by
  obtain ⟨contents, hfile⟩ := h
  rcases (write_effect w a d).changed q with hsame | ⟨hnone, -⟩ | ⟨-, -, htext⟩
  · exact ⟨contents, hsame.trans hfile⟩
  · rw [hfile] at hnone
    cases hnone
  · exact ⟨_, htext⟩

/-- A file keeps its place, and so does the way to it. -/
theorem isFile_stays {w : Writer} {a : Artifact} {d : Disk} {p : Path} (h : d.isFile p = true) :
    ((w.write a).apply d).2.isFile p = true := by
  obtain ⟨hvalid, hdirs, hfile⟩ := isFile_iff.1 h
  have hhere := (write_effect w a d).here_eq
  refine isFile_iff.2 ⟨hvalid, fun c hc => ?_, ?_⟩
  · rw [route_congr hhere] at hc
    exact (write_effect w a d).directory_stays (hdirs c hc)
  · rw [spot_congr hhere]
    exact file_stays hfile

namespace Trail

variable {d last : Disk} {ts : List Attempt}

/-- Files are there all the time. -/
theorem file_stays (h : Trail d ts last) {q : Place}
    (hq : ∃ contents, d.at? q = some (.file contents)) :
    (∃ contents, last.at? q = some (.file contents)) ∧
      ∀ t ∈ ts, ∃ contents, t.before.at? q = some (.file contents) :=
  h.keeps (fun e => ∃ contents, e.at? q = some (.file contents)) (fun _ => True)
    (fun _ _ _ he _ => Output.file_stays he) hq fun _ _ => trivial

/-- After attempts that all succeeded, their targets are files. -/
theorem isFile_after (h : Trail d ts last) (hdry : ∀ t ∈ ts, t.writer.dryRun = false)
    (hok : ∀ t ∈ ts, t.Succeeds) {t : Attempt} (ht : t ∈ ts) : last.isFile t.target = true := by
  induction h with
  | nil => cases ht
  | cons w a d last rest hrest ih =>
    rcases List.mem_cons.1 ht with rfl | ht
    · obtain ⟨o, ho⟩ := hok _ List.mem_cons_self
      exact (hrest.keeps (fun e => e.isFile (w.target a) = true) (fun _ => True)
        (fun _ _ _ he _ => isFile_stays he)
        (isFile_of_success (hdry _ List.mem_cons_self) ho) fun _ _ => trivial).1
    · exact ih (fun t ht => hdry t (List.mem_cons_of_mem _ ht))
        (fun t ht => hok t (List.mem_cons_of_mem _ ht)) ht

end Trail

/-- A disk on which attempts have all succeeded was clear for their targets. -/
theorem clear_of_succeeds {d last : Disk} {ts : List Attempt} (h : Trail d ts last)
    (hground : Grounded d) (hdry : ∀ t ∈ ts, t.writer.dryRun = false)
    (hok : ∀ t ∈ ts, t.Succeeds) : Clear d (ts.map (·.target)) := by
  have hhere : last.here = d.here := h.here_eq.1
  have hlast : Grounded last := by
    intro q hq
    rw [hhere] at hq
    exact h.directory_stays (hground q hq)
  have hfile : ∀ p ∈ ts.map (·.target), last.isFile p = true := by
    intro p hp
    obtain ⟨t, ht, rfl⟩ := List.mem_map.1 hp
    exact h.isFile_after hdry hok ht
  -- what is there now, seen from the places on the disk before
  have hplaces : ∀ p ∈ ts.map (·.target), (∀ c ∈ d.route p, last.at? c = some .directory) ∧
      ∃ contents, last.at? (d.spot p) = some (.file contents) := by
    intro p hp
    obtain ⟨-, hdirs, hat⟩ := isFile_iff.1 (hfile p hp)
    rw [route_congr hhere] at hdirs
    rw [spot_congr hhere] at hat
    exact ⟨hdirs, hat⟩
  refine ⟨fun p _ => ?_, fun p hp => (isFile_iff.1 (hfile p hp)).1,
    fun p hp => named_of_isFile hlast (hfile p hp), fun p hp c hc contents hat => ?_,
    fun p hp hat => ?_, fun p hp q hq hmem => ?_⟩
  · unfold start
    split
    · exact at?_root d
    · exact hground _ List.prefix_rfl
  · obtain ⟨new, hnew⟩ := (h.file_stays ⟨contents, hat⟩).1
    rw [(hplaces p hp).1 c hc] at hnew
    cases hnew
  · obtain ⟨new, hnew⟩ := (hplaces p hp).2
    rw [h.directory_stays hat] at hnew
    cases hnew
  · obtain ⟨new, hnew⟩ := (hplaces p hp).2
    rw [(hplaces q hq).1 _ hmem] at hnew
    cases hnew

/-- No write leaves an illegible file where there was none. -/
theorem legible_stays {w : Writer} {a : Artifact} {d : Disk} {q : Place}
    (h : ¬ Illegible d q) : ¬ Illegible ((w.write a).apply d).2 q := by
  rintro ⟨bytes, hat⟩
  rcases (write_effect w a d).changed q with hsame | ⟨-, hmade⟩ | ⟨-, -, htext⟩
  · exact h ⟨bytes, hsame.symm.trans hat⟩
  · rw [hmade] at hat
    cases hat
  · rw [htext] at hat
    cases hat

end ScreenHooks.Output
