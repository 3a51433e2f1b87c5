/-
What the records of a run say of the disk.

A run records each artifact that it has written or left alone. Whatever file has changed
is the target of a record that says so, and no file goes away. Of all outcomes but one a
record is true: the file was there with the text that the outcome takes it to have had,
and it is there afterwards with the text that it should have. Only a file that is said to
be created may have been there before, where its path leads through a directory that was
missing until the write made it.

* **`Attempt.tells_of_ok`** — what an outcome says of one write;
* **`Attempt.absent_iff`** — when a file that is said to be created was not there;
* **`Completed.changed_recorded`** — changed files are recorded;
* **`records_true_iff`** — when all records of a run are true;
* **`records_wrong`** — a file that is replaced and said to be created.
-/
import ScreenHooks.Proofs.Run.Preview

namespace ScreenHooks.Output

open Disk

variable {w : Writer} {a : Artifact} {d : Disk}

/-! ### What a write has found -/

/-- A write that says it created the file found nothing at its path, and nothing in the way
of it. -/
theorem created_spec (hdry : w.dryRun = false) (h : ((w.write a).apply d).1 = .ok .created) :
    d.readIfExists (w.target a) = .ok none ∧ d.at? (d.spot (w.target a)) ≠ some .directory ∧
      Valid (w.target a) ∧
      ∀ c ∈ d.route (w.target a), d.at? c = none ∨ d.at? c = some .directory := by
  have heffect := write_effect w a d
  generalize (w.write a).apply d = r at heffect h
  cases heffect with
  | unread => cases h
  | failed => cases h
  | kept existing _ hkept =>
    rw [Except.ok.inj h] at hkept
    cases hkept
  | replaced existing hread _ mid hpaved hplace =>
    have hnone : existing = none := by
      cases existing with
      | none => rfl
      | some text =>
        rcases outcome_some hdry a text with ⟨ho, -⟩ | ⟨ho, -⟩ | ⟨ho, -⟩ <;>
          rw [ho] at h <;> cases h
    obtain ⟨hvalid, hdirs, -, hfree, -⟩ := filePlace_ok_iff.1 hplace
    rw [spot_congr hpaved.here_eq] at hfree
    rw [route_congr hpaved.here_eq] at hdirs
    -- the place is looked up after directories were made, which keeps those before
    refine ⟨hnone ▸ hread, fun hdirectory => hfree (hpaved.keeps hdirectory), hvalid,
      fun c hc => ?_⟩
    rcases hpaved.entry c with hsame | ⟨hmissing, -, -⟩
    · exact .inr (hsame ▸ hdirs c hc)
    · exact .inl hmissing

/-- A write that says anything else found a text, by which it decided. -/
theorem found_spec {o : WriteOutcome} (hdry : w.dryRun = false)
    (ho : ((w.write a).apply d).1 = .ok o) (hnew : o ≠ .created) :
    ∃ text, d.readText (w.target a) = .ok text ∧
      ((o = .preserved ∧ Text.contains text w.sentinel = false ∧ ((w.write a).apply d).2 = d) ∨
        (o = .unchanged ∧ text = a.content ∧ ((w.write a).apply d).2 = d) ∨
        (o = .updated ∧ text ≠ a.content)) := by
  obtain ⟨existing, hread, rfl⟩ := read_of_success ho
  cases existing with
  | none => exact absurd (outcome_none hdry a) hnew
  | some text =>
    refine ⟨text, readText_iff_hasFile.2 (readIfExists_some_iff.1 hread), ?_⟩
    rcases outcome_some hdry a text with ⟨hkept, hsentinel⟩ | ⟨hkept, hsame⟩ | ⟨hupdated, hdiffers⟩
    · rw [write_kept hread (by rw [hkept]; rfl)]
      exact .inl ⟨hkept, hsentinel, rfl⟩
    · rw [write_kept hread (by rw [hkept]; rfl)]
      exact .inr (.inl ⟨hkept, hsame, rfl⟩)
    · exact .inr (.inr ⟨hupdated, hdiffers⟩)

/-! ### Outcomes and files -/

namespace Attempt

/-- The disk after an attempt. -/
def after (t : Attempt) : Disk := ((t.writer.write t.artifact).apply t.before).2

/-- What an outcome says of the file that is to be written: whether it was there, with
which text, and what is there now. -/
def Tells (t : Attempt) : WriteOutcome → Prop
  | .created => t.before.at? t.spot = none ∧ t.after.readText t.target = .ok t.artifact.content
  | .updated =>
    (∃ text, t.before.readText t.target = .ok text ∧ text ≠ t.artifact.content) ∧
      t.after.readText t.target = .ok t.artifact.content
  | .unchanged => t.before.readText t.target = .ok t.artifact.content ∧ t.after = t.before
  | .preserved =>
    (∃ text, t.before.readText t.target = .ok text ∧
      Text.contains text t.writer.sentinel = false) ∧ t.after = t.before
  | .dryRun => False

variable {t : Attempt} {o : WriteOutcome}

/-- What an attempt says is true, if no file was there that it says to have created. -/
theorem tells_of_ok (hwrite : ((t.writer.write t.artifact).apply t.before).1 = .ok o)
    (hdry : t.writer.dryRun = false) (habsent : o = .created → t.before.at? t.spot = none) :
    t.Tells o := by
  by_cases hnew : o = .created
  · rw [hnew] at hwrite ⊢
    exact ⟨habsent hnew, text_of_change hwrite rfl⟩
  · obtain ⟨text, htext, hfound⟩ := found_spec hdry hwrite hnew
    rcases hfound with ⟨rfl, hsentinel, hsame⟩ | ⟨rfl, rfl, hsame⟩ | ⟨rfl, hdiffers⟩
    · exact ⟨⟨text, htext, hsentinel⟩, hsame⟩
    · exact ⟨htext, hsame⟩
    · exact ⟨⟨text, htext, hdiffers⟩, text_of_change hwrite rfl⟩

/-- A file that is said to be created was not there, unless its path did not lead to it. -/
theorem absent_iff (hwrite : ((t.writer.write t.artifact).apply t.before).1 = .ok .created)
    (hdry : t.writer.dryRun = false) :
    t.before.at? t.spot = none ↔
      ∀ contents, t.before.at? t.spot = some (.file contents) → t.before.Reaches t.target := by
  obtain ⟨hread, hfree, -⟩ := created_spec hdry hwrite
  constructor
  · intro hnone contents hfile
    rw [hnone] at hfile
    cases hfile
  · intro hreaches
    cases hat : t.before.at? t.spot with
    | none => rfl
    | some entry =>
      cases entry with
      | directory => exact absurd hat hfree
      | file contents =>
        -- a file that the path leads to is read, or is no text
        have hfound := readText_of_reaches (hreaches contents hat)
        rw [show t.before.at? (t.before.spot t.target) = some (.file contents) from hat] at hfound
        rw [show t.writer.target t.artifact = t.target from rfl, readIfExists, hfound] at hread
        cases contents <;> cases hread

end Attempt

end ScreenHooks.Output

namespace ScreenHooks.Run

open Disk Output

namespace Generator

variable {g : Generator} {options : Options} {d : Disk}

/-! ### Changed files -/

/-- Every file that is not as it was before is the target of a record that says so. -/
theorem Completed.changed_recorded (c : Completed g options d) {place : Place}
    {contents : Contents} (hafter : c.last.at? place = some (.file contents))
    (hbefore : d.at? place ≠ some (.file contents)) :
    ∃ r ∈ c.report.artifacts, (r.outcome = .created ∨ r.outcome = .updated) ∧
      place = d.spot (g.outputRoot.join r.path) := by
  rcases c.trail.changed place with hsame | ⟨-, hmade⟩ | ⟨t, ht, ⟨o, ho, hchanges⟩, hspot, -⟩
  · rw [hsame] at hafter
    exact absurd hafter hbefore
  · rw [hmade] at hafter
    cases hafter
  · refine ⟨⟨t.artifact.path, o⟩, List.mem_filterMap.2 ⟨t, ht, by rw [recordOf, ho]⟩, ?_, ?_⟩
    · cases o with
      | created => exact .inl rfl
      | updated => exact .inr rfl
      | _ => cases hchanges
    · rw [hspot, (c.attempt_spot ht).1]
      rfl

/-! ### True records -/

/-- Where no two artifacts share a place, a path that climbs first, if at all, leads to
the file that is there before it is written. -/
theorem Completed.reaches_before (c : Completed g options d) (htree : IsTree d)
    (hdry : options.dryRun = false) (hdistinct : ((c.ts ++ c.us).map (·.spot)).Nodup)
    {t : Attempt} (ht : t ∈ c.ts ++ c.us) (hdownhill : t.target.Downhill)
    (hcreated : t.outcome = .ok .created) {contents : Contents}
    (hfile : t.before.at? t.spot = some (.file contents)) : t.before.Reaches t.target := by
  obtain ⟨places, hgrown, hfresh⟩ := c.trail.grown_before hdistinct ht
  have hspot : t.spot = d.spot t.target := spot_congr hgrown.here_eq _
  have hold : d.at? t.spot = some (.file contents) := (hgrown.at_file_iff hfresh).1 hfile
  have hwriter : t.writer.dryRun = false := by
    rw [c.attempt_writer ht]
    exact hdry
  have hwrite := (c.trail.outcome_eq ht).symm.trans hcreated
  obtain ⟨-, -, hvalid, hroute⟩ := created_spec hwriter hwrite
  refine ⟨hvalid, fun k hk => ?_⟩
  -- the target is no directory on its own way, since there is a file at it
  have hne : k ≠ t.spot := by
    rintro rfl
    rcases hroute _ hk with h | h <;> rw [hfile] at h <;> cases h
  rw [route_congr hgrown.here_eq] at hk
  rcases route_downhill hdownhill d hk with habove | habove
  · exact hgrown.directory k (htree.start t.target habove)
  · rw [← hspot] at habove
    exact hgrown.directory k (htree.above _ _ hold k habove hne)

/-- A run that succeeds, and is no dry run, records all files that it changes, and takes
none away. All its records are true of the disks that its writes have found and left
exactly if every file that is there before it is said to be created is reached through
directories that are there. That holds where no two artifacts share a place and their
paths climb before they go down, if at all. -/
theorem records_true_iff {report : Report} (hdry : options.dryRun = false)
    (hok : (g.run options d).outcome = .ok report) :
    report.artifacts = (g.attempts options d).filterMap recordOf ∧
      Trail d (g.attempts options d) (g.run options d).disk ∧
      (∀ place contents, (g.run options d).disk.at? place = some (.file contents) →
        d.at? place ≠ some (.file contents) →
          ∃ r ∈ report.artifacts, (r.outcome = .created ∨ r.outcome = .updated) ∧
            place = d.spot (g.outputRoot.join r.path)) ∧
      (∀ place, (∃ contents, d.at? place = some (.file contents)) →
        (∃ contents, (g.run options d).disk.at? place = some (.file contents)) ∧
          ∀ t ∈ g.attempts options d, ∃ contents, t.before.at? place = some (.file contents)) ∧
      (∀ t ∈ g.attempts options d, ∀ o, t.outcome = .ok o → o ≠ .created → t.Tells o) ∧
      ((∀ t ∈ g.attempts options d, ∀ o, t.outcome = .ok o → t.Tells o) ↔
        ∀ t ∈ g.attempts options d, t.outcome = .ok .created →
          ∀ contents, t.before.at? t.spot = some (.file contents) → t.before.Reaches t.target) ∧
      (IsTree d → ((g.attempts options d).map (·.spot)).Nodup →
        (∀ r ∈ report.artifacts, (g.outputRoot.join r.path).Downhill) →
          ∀ t ∈ g.attempts options d, ∀ o, t.outcome = .ok o → t.Tells o) := by
  obtain ⟨c, rfl⟩ := completed_of_ok hok
  obtain ⟨-, hdisk, hattempts⟩ := c.run_eq
  rw [hdisk, hattempts]
  have hwriter : ∀ t ∈ c.ts ++ c.us, t.writer.dryRun = false := fun t ht => by
    rw [c.attempt_writer ht]
    exact hdry
  have hwrite : ∀ t ∈ c.ts ++ c.us, ∀ {o}, t.outcome = .ok o →
      ((t.writer.write t.artifact).apply t.before).1 = .ok o :=
    fun t ht _ ho => (c.trail.outcome_eq ht).symm.trans ho
  -- only the record of a new file depends on how the file was reached
  have htells : (∀ t ∈ c.ts ++ c.us, t.outcome = .ok .created →
        ∀ contents, t.before.at? t.spot = some (.file contents) → t.before.Reaches t.target) →
      ∀ t ∈ c.ts ++ c.us, ∀ o, t.outcome = .ok o → t.Tells o := by
    intro hreaches t ht o ho
    refine Attempt.tells_of_ok (hwrite t ht ho) (hwriter t ht) ?_
    rintro rfl
    exact (Attempt.absent_iff (hwrite t ht ho) (hwriter t ht)).2 (hreaches t ht ho)
  refine ⟨rfl, c.trail, fun place contents => c.changed_recorded, fun place => c.trail.file_stays,
    fun t ht o ho hnew => ?_, ⟨fun hall t ht ho => ?_, htells⟩,
    fun htree hdistinct hdownhill => htells fun t ht ho contents hfile => ?_⟩
  · exact Attempt.tells_of_ok (hwrite t ht ho) (hwriter t ht) fun h => absurd h hnew
  · exact (Attempt.absent_iff (hwrite t ht ho) (hwriter t ht)).1 (hall t ht _ ho).1
  · refine c.reaches_before htree hdry hdistinct ht ?_ ho hfile
    rw [(c.attempt_spot ht).1]
    exact hdownhill ⟨t.artifact.path, .created⟩
      (List.mem_filterMap.2 ⟨t, ht, by rw [recordOf, ho]⟩)

/-- Without a climb in the paths, all records are true. -/
theorem records_true_kept : ∃ report,
    ((authoredGenerator false).run {} authoredDisk).outcome = .ok report ∧
      report.artifacts = authoredRecords false ∧
      ∀ t ∈ (authoredGenerator false).attempts {} authoredDisk, ∀ o, t.outcome = .ok o →
        t.Tells o := by
  obtain ⟨report, hok, hrecords⟩ := authored_ok false
  obtain ⟨-, -, -, -, -, -, htrue⟩ := records_true_iff rfl hok
  have hsegments : ∀ r ∈ authoredRecords false,
      ".." ∉ ((authoredGenerator false).outputRoot.join r.path).segments := by decide +kernel
  refine ⟨report, hok, hrecords, htrue authored_tree (authored_written false).2 fun r hr => ?_⟩
  rw [hrecords] at hr
  exact Path.downhill_of_no_climb (hsegments r hr)

/-- The disk of an authored module, with a generated one beside it. -/
def replacedDisk : Disk where
  entries := (["o", "hooks", "context-hooks.ts"], .file (.text "old")) :: authoredDisk.entries

/-- Behind a directory that is missing, the generated module is replaced and said to be
created. -/
theorem records_wrong : ∃ report,
    ((authoredGenerator true).run {} replacedDisk).outcome = .ok report ∧
      ⟨⟨"new/../hooks/context-hooks.ts"⟩, .created⟩ ∈ report.artifacts ∧
      replacedDisk.at? ["o", "hooks", "context-hooks.ts"] = some (.file (.text "old")) ∧
      ∃ t ∈ (authoredGenerator true).attempts {} replacedDisk, t.outcome = .ok .created ∧
        t.spot = ["o", "hooks", "context-hooks.ts"] ∧
        t.before.at? t.spot = some (.file (.text "old")) ∧ ¬ t.Tells .created := by
  have hrecords : ((authoredGenerator true).run {} replacedDisk).outcome.toOption.map
      (·.artifacts) = some (authoredRecords true) := by decide +kernel
  obtain ⟨report, hreport, hartifacts⟩ := Option.map_eq_some_iff.1 hrecords
  have hattempts : ∃ t ∈ (authoredGenerator true).attempts {} replacedDisk,
      t.outcome.toOption = some .created ∧ t.spot = ["o", "hooks", "context-hooks.ts"] ∧
        t.before.at? t.spot = some (.file (.text "old")) := by decide +kernel
  obtain ⟨t, ht, houtcome, hspot, hold⟩ := hattempts
  refine ⟨report, eq_ok_of_toOption hreport, ?_, rfl, t, ht, eq_ok_of_toOption houtcome, hspot,
    hold, fun htells => ?_⟩
  · rw [hartifacts]
    exact List.mem_cons_self
  · rw [htells.1] at hold
    cases hold

end Generator

end ScreenHooks.Run
