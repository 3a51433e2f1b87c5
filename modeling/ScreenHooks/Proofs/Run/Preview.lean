/-
What a dry run foresees.

A dry run decides on the disk as it stands, a run on what its earlier writes have
left. Those are files at other places and new directories. So both find the same
at an artifact's path, unless a directory on the way is still missing: then the
dry run takes the file for absent, while the run may make the directory for an
earlier artifact and find a file behind it.

* **`read_before`** — what a path reads before and after a disk has grown;
* **`Completed.forecast_attempt`** — one artifact in both runs;
* **`preview_faithful_iff`** — whole runs;
* **`preview_astray`** — a file behind a directory that is missing.
-/
import ScreenHooks.Proofs.Output.Settled
import ScreenHooks.Proofs.Run.Steady

namespace ScreenHooks.Output

open Disk

/-! ### Outcomes -/

/-- What a dry run should say of an artifact that a run ends with an outcome. -/
def WriteOutcome.foreseen : WriteOutcome → WriteOutcome
  | created | updated => dryRun
  | outcome => outcome

theorem WriteOutcome.foreseen_eq_dryRun {o : WriteOutcome} (h : o ≠ .unchanged ∧ o ≠ .preserved) :
    o.foreseen = .dryRun := by
  cases o with
  | created => rfl
  | updated => rfl
  | unchanged => exact absurd rfl h.1
  | preserved => exact absurd rfl h.2
  | dryRun => rfl

/-- The writer that only tells what it would do. -/
def Writer.preview (w : Writer) : Writer := { w with dryRun := true }

@[simp] theorem Writer.preview_dryRun (w : Writer) : w.preview.dryRun = true := rfl

@[simp] theorem Writer.preview_sentinel (w : Writer) : w.preview.sentinel = w.sentinel := rfl

/-- Where both find the same, a dry run foresees the outcome. -/
theorem Writer.outcome_preview {w : Writer} (hdry : w.dryRun = false) (a : Artifact)
    (existing : Option String) :
    w.preview.outcome a existing = (w.outcome a existing).foreseen := by
  rw [Writer.outcome, Writer.outcome, preview_sentinel, preview_dryRun, hdry]
  by_cases hpolicy : a.policy = .ifPlaceholder ∧ mayOverwrite w.sentinel existing = false
  · rw [if_pos hpolicy, if_pos hpolicy]
    rfl
  · rw [if_neg hpolicy, if_neg hpolicy]
    by_cases hsame : existing = some a.content
    · rw [if_pos hsame, if_pos hsame]
      rfl
    · rw [if_neg hsame, if_neg hsame]
      cases existing <;> rfl

/-- An absent file would be written. -/
theorem Writer.outcome_preview_none (w : Writer) (a : Artifact) :
    w.preview.outcome a none = .dryRun := by
  simp [Writer.outcome, Writer.preview, mayOverwrite]

/-! ### Reading before and after -/

/-- Before a disk has grown elsewhere, a path reads the same if it leads to its
place, and otherwise nothing. -/
theorem read_before {places : List Place} {d e : Disk} {p : Path} {existing : Option String}
    (hgrown : Grown places d e) (hspot : d.spot p ∉ places) (hvalid : Valid p)
    (hroute : ∀ c ∈ d.route p, ∀ contents, d.at? c ≠ some (.file contents))
    (hread : e.readIfExists p = .ok existing) :
    d.readIfExists p = .ok (if d.Reaches p then existing else none) := by
  by_cases hreach : d.Reaches p
  · rw [if_pos hreach]
    have hlater : e.Reaches p := by
      refine ⟨hvalid, fun c hc => ?_⟩
      rw [route_congr hgrown.here_eq] at hc
      exact hgrown.directory c (hreach.2 c hc)
    unfold readIfExists at hread ⊢
    rw [readText_of_reaches hlater, spot_congr hgrown.here_eq] at hread
    rw [readText_of_reaches hreach]
    rcases hgrown.elsewhere _ hspot with heq | ⟨-, hdir⟩
    · rw [heq] at hread
      exact hread
    · -- a new directory could not be read
      rw [hdir] at hread
      cases hread
  · rw [if_neg hreach]
    exact readIfExists_unreached hvalid hroute hreach

/-- Before an attempt at a place of its own the disk has grown elsewhere only. -/
theorem Trail.grown_before {d last : Disk} {ts : List Attempt} (h : Trail d ts last)
    (hdistinct : (ts.map (·.spot)).Nodup) {t : Attempt} (ht : t ∈ ts) :
    ∃ places, Grown places d t.before ∧ t.spot ∉ places := by
  obtain ⟨earlier, later, rfl⟩ := List.append_of_mem ht
  obtain ⟨mid, hearlier, hlater⟩ := h.split
  have hmid : t.before = mid := by
    cases hlater
    rfl
  rw [List.map_append, List.map_cons] at hdistinct
  refine ⟨earlier.map (·.spot), hmid ▸ hearlier.grown, fun hmem => ?_⟩
  exact (List.nodup_append.1 hdistinct).2.2 _ hmem _ List.mem_cons_self rfl

end ScreenHooks.Output

namespace ScreenHooks.Run

open Disk Output

/-- The options of the dry run that corresponds to a run. -/
def Options.preview (options : Options) : Options := { options with dryRun := true }

/-- The record that a dry run should make where a run makes the given one. -/
def Record.foreseen (r : Record) : Record := ⟨r.path, r.outcome.foreseen⟩

namespace Generator

variable {g : Generator} {options : Options} {d : Disk}

/-- The record that a dry run on a disk makes where a run makes the given one. -/
def forecast (g : Generator) (d : Disk) (r : Record) : Record :=
  ⟨r.path, if d.Reaches (g.outputRoot.join r.path) then r.outcome.foreseen else .dryRun⟩

/-! ### One artifact -/

/-- What is read for an attempt of a run, on the disk of before. -/
theorem Completed.read_first (c : Completed g options d) (htree : IsTree d)
    (hdry : options.dryRun = false) (hok : ∀ t ∈ c.ts ++ c.us, t.Succeeds)
    (hdistinct : ((c.ts ++ c.us).map (·.spot)).Nodup) {t : Attempt} (ht : t ∈ c.ts ++ c.us) :
    ∃ existing, t.outcome = .ok ((g.writer options).outcome t.artifact existing) ∧
      d.readIfExists (g.target t.artifact) =
        .ok (if d.Reaches (g.target t.artifact) then existing else none) := by
  have hground : Grounded d := fun q hq => by
    by_cases hhere : q = d.here
    · rw [hhere]
      exact htree.here
    · exact htree.above _ _ htree.here q hq hhere
  have hwriter : ∀ t ∈ c.ts ++ c.us, t.writer.dryRun = false := fun t ht => by
    rw [c.attempt_writer ht]
    exact hdry
  have hclear := clear_of_succeeds c.trail hground hwriter hok
  obtain ⟨htarget, hspot⟩ := c.attempt_spot ht
  have hmem : g.target t.artifact ∈ (c.ts ++ c.us).map (·.target) :=
    htarget ▸ List.mem_map_of_mem ht
  -- the attempts before this one have grown the disk elsewhere
  obtain ⟨places, hgrown, hfresh⟩ := c.trail.grown_before hdistinct ht
  obtain ⟨o, ho⟩ := hok t ht
  have hwrite := ho
  rw [c.trail.outcome_eq ht, c.attempt_writer ht] at hwrite
  obtain ⟨existing, hread, rfl⟩ := read_of_success hwrite
  exact ⟨existing, ho, read_before hgrown (hspot ▸ hfresh) (hclear.valid _ hmem)
    (hclear.route _ hmem) hread⟩

/-- The dry run makes the forecast record for each artifact of the run. -/
theorem Completed.forecast_attempt (c : Completed g options d) (htree : IsTree d)
    (hdry : options.dryRun = false) (hok : ∀ t ∈ c.ts ++ c.us, t.Succeeds)
    (hdistinct : ((c.ts ++ c.us).map (·.spot)).Nodup) {t : Attempt} (ht : t ∈ c.ts ++ c.us) :
    Accepts (g.writer options.preview) (· = d) t.artifact ∧
      recordOf (attemptOf (g.writer options.preview) d t.artifact) =
        (recordOf t).map (g.forecast d) := by
  obtain ⟨existing, houtcome, hread⟩ := c.read_first htree hdry hok hdistinct ht
  have hwriter : g.writer options.preview = (g.writer options).preview := rfl
  rw [hwriter]
  have hkept := changes_dry (w := (g.writer options).preview) rfl t.artifact
    (if d.Reaches (g.target t.artifact) then existing else none)
  refine ⟨kept_accepts hread hkept, ?_⟩
  have hwrite := write_kept (w := (g.writer options).preview) hread hkept
  rw [recordOf, recordOf, attemptOf, hwrite, houtcome, Option.map_some, forecast, ← target]
  by_cases hreach : d.Reaches (g.target t.artifact)
  · simp only [if_pos hreach, Writer.outcome_preview (w := g.writer options) hdry]
  · simp only [if_neg hreach, Writer.outcome_preview_none]

/-! ### Whole runs -/

/-- The dry run succeeds, changes nothing, and makes the forecast records. -/
theorem Completed.preview (c : Completed g options d) (htree : IsTree d)
    (hdry : options.dryRun = false) (hok : ∀ t ∈ c.ts ++ c.us, t.Succeeds)
    (hdistinct : ((c.ts ++ c.us).map (·.spot)).Nodup) :
    (g.run options.preview d).outcome = .ok
        { c.report with dryRun := true, artifacts := c.report.artifacts.map (g.forecast d) } ∧
      (g.run options.preview d).disk = d := by
  obtain ⟨hshipped, hskipped, hartifacts⟩ := c.all_written hok
  have hforecast : ∀ a ∈ g.screenArtifacts options (packageName c.manifest) c.shipped ++
      (g.sharedArtifacts (c.shipped.map g.emitted) ++ [c.merged]),
      Accepts (g.writer options.preview) (· = d) a := by
    intro a ha
    rw [← hartifacts] at ha
    obtain ⟨t, ht, rfl⟩ := List.mem_map.1 ha
    exact (c.forecast_attempt htree hdry hok hdistinct ht).1
  rw [hshipped] at hforecast
  obtain ⟨dry, ⟨hmanifest, -, hmerged, hdryShipped, hdrySkipped⟩, hlast, hattempts⟩ :=
    completed_of_accepts c.read_eq (hshipped ▸ c.merged_eq)
      (fun a ha => hforecast a (List.mem_append_left _ ha))
      (fun a ha => hforecast a (List.mem_append_right _ ha)) rfl
  -- both runs try the same artifacts
  have hsame : (dry.ts ++ dry.us).map (·.artifact) = (c.ts ++ c.us).map (·.artifact) := by
    rw [(dry.all_written fun t ht => (hattempts t ht).2).2.2, hartifacts, hmanifest, hmerged,
      hdryShipped, hshipped]
    rfl
  have hdryAttempt : ∀ t ∈ dry.ts ++ dry.us,
      recordOf t = recordOf (attemptOf (g.writer options.preview) d t.artifact) := by
    intro t ht
    rw [recordOf, recordOf, attemptOf, dry.trail.outcome_eq ht, dry.attempt_writer ht,
      (hattempts t ht).1]
  have hrecords : (dry.ts ++ dry.us).filterMap recordOf =
      ((c.ts ++ c.us).filterMap recordOf).map (g.forecast d) := by
    calc (dry.ts ++ dry.us).filterMap recordOf
        = (dry.ts ++ dry.us).filterMap
            fun t => recordOf (attemptOf (g.writer options.preview) d t.artifact) :=
          List.filterMap_congr hdryAttempt
      _ = ((c.ts ++ c.us).map (·.artifact)).filterMap
            fun a => recordOf (attemptOf (g.writer options.preview) d a) := by
          rw [← hsame, List.filterMap_map]
          rfl
      _ = (c.ts ++ c.us).filterMap fun t => (recordOf t).map (g.forecast d) := by
          rw [List.filterMap_map]
          exact List.filterMap_congr fun t ht =>
            (c.forecast_attempt htree hdry hok hdistinct ht).2
      _ = ((c.ts ++ c.us).filterMap recordOf).map (g.forecast d) := by
          rw [List.map_filterMap]
  refine ⟨?_, by rw [dry.run_eq.2.1, hlast]⟩
  rw [dry.run_eq.1]
  simp only [Completed.report, hrecords, hdryShipped, hdrySkipped, hshipped, hskipped]
  rfl

/-- A path that climbs first, if at all, leads to every file that a run leaves
there. -/
theorem Completed.reaches_kept (c : Completed g options d) (htree : IsTree d)
    (hdry : options.dryRun = false) (hok : ∀ t ∈ c.ts ++ c.us, t.Succeeds)
    (hdistinct : ((c.ts ++ c.us).map (·.spot)).Nodup) {t : Attempt} (ht : t ∈ c.ts ++ c.us)
    (hdownhill : (g.target t.artifact).Downhill)
    (hkept : t.outcome = .ok .unchanged ∨ t.outcome = .ok .preserved) :
    d.Reaches (g.target t.artifact) := by
  obtain ⟨places, hgrown, hfresh⟩ := c.trail.grown_before hdistinct ht
  obtain ⟨htarget, hspot⟩ := c.attempt_spot ht
  have hwrite := c.trail.outcome_eq ht
  rw [c.attempt_writer ht] at hwrite
  obtain ⟨o, ho⟩ := hok t ht
  rw [ho] at hwrite hkept
  obtain ⟨existing, hread, rfl⟩ := read_of_success hwrite.symm
  cases existing with
  | none =>
    rw [outcome_none (w := g.writer options) hdry] at hkept
    rcases hkept with h | h <;> cases h
  | some text =>
    have hfile : t.before.HasFile (g.target t.artifact) (.text text) :=
      readIfExists_some_iff.1 hread
    exact ((hgrown.file_iff_of_downhill htree hdownhill (hspot ▸ hfresh)).1 hfile).1

/-- The dry run of a run in which no write fails and no two artifacts share a
place succeeds, with the same screens and the same skipped ones, and leaves the
disk as it was. It records the same paths in the same order, and foresees every
outcome exactly if each file that the run leaves alone is reached, before the run,
through directories that are there. That holds of all paths that climb before they
go down, if at all. -/
theorem preview_faithful_iff {report : Report} (htree : IsTree d)
    (hdry : options.dryRun = false) (hok : (g.run options d).outcome = .ok report)
    (hwritten : ∀ t ∈ g.attempts options d, t.Succeeds)
    (hdistinct : ((g.attempts options d).map (·.spot)).Nodup) :
    ∃ preview, (g.run options.preview d).outcome = .ok preview ∧
      (g.run options.preview d).disk = d ∧ preview.dryRun = true ∧
      preview.screens = report.screens ∧ preview.skipped = report.skipped ∧
      preview.artifacts = report.artifacts.map (g.forecast d) ∧
      (preview.artifacts = report.artifacts.map Record.foreseen ↔
        ∀ r ∈ report.artifacts, r.outcome = .unchanged ∨ r.outcome = .preserved →
          d.Reaches (g.outputRoot.join r.path)) ∧
      ((∀ r ∈ report.artifacts, (g.outputRoot.join r.path).Downhill) →
        preview.artifacts = report.artifacts.map Record.foreseen) := by
  obtain ⟨c, rfl⟩ := completed_of_ok hok
  rw [c.run_eq.2.2] at hwritten hdistinct
  obtain ⟨hpreview, hdisk⟩ := c.preview htree hdry hwritten hdistinct
  have hiff : c.report.artifacts.map (g.forecast d) = c.report.artifacts.map Record.foreseen ↔
      ∀ r ∈ c.report.artifacts, r.outcome = .unchanged ∨ r.outcome = .preserved →
        d.Reaches (g.outputRoot.join r.path) := by
    rw [List.map_inj_left]
    refine forall₂_congr fun r _ => ?_
    rw [forecast, Record.foreseen, Record.mk.injEq, and_iff_right rfl]
    -- what is not reached is foreseen as written
    constructor
    · intro hsame hkept
      by_contra hreach
      rw [if_neg hreach] at hsame
      rcases hkept with h | h <;> rw [h] at hsame <;> cases hsame
    · intro hreach
      by_cases hkept : r.outcome = .unchanged ∨ r.outcome = .preserved
      · rw [if_pos (hreach hkept)]
      · rw [WriteOutcome.foreseen_eq_dryRun (not_or.1 hkept), ite_self]
  refine ⟨_, hpreview, hdisk, rfl, rfl, rfl, rfl, hiff, fun hdownhill => hiff.2 ?_⟩
  intro r hr hkept
  obtain ⟨t, ht, hpath, houtcome⟩ := c.record_attempt hr
  have hreach := c.reaches_kept htree hdry hwritten hdistinct ht
  rw [target, hpath, houtcome] at hreach
  refine hreach (hdownhill r hr) ?_
  rcases hkept with h | h
  · exact .inl (congrArg _ h)
  · exact .inr (congrArg _ h)

/-! ### An authored file behind a missing directory -/

/-- A core package without screens, and an authored utility module. -/
def authoredDisk : Disk where
  entries := [(["c"], .directory), (["c", "all.ts"], .file (.text "")), (["o"], .directory),
    (["o", "hooks"], .directory),
    (["o", "hooks", "utility.ts"], .file (.text "export const mine = 1;\n"))]

/-- A generator for it. The directory of the utility module may be reached
through one that is not there. -/
def authoredGenerator (climbs : Bool) : Generator where
  config :=
    { core := { root := ⟨"/c"⟩, screensBarrel := ⟨"all.ts"⟩ }
      output := { root := ⟨"/o"⟩, hooksDir := if climbs then ⟨"new/../hooks"⟩ else ⟨"hooks"⟩ } }
  home := none
  project := { root := ⟨"/c"⟩ }
  allow := .empty

theorem authored_tree : IsTree authoredDisk := isTree_of_entries rfl (by decide)

/-- The records of its run. -/
def authoredRecords (climbs : Bool) : List Record :=
  let hooks := (authoredGenerator climbs).config.output.hooksDir
  [⟨hooks.child "context-hooks.ts", .created⟩, ⟨hooks.child "utility.ts", .preserved⟩,
    ⟨hooks.child "common.ts", .created⟩, ⟨⟨"src/index.ts"⟩, .created⟩,
    ⟨⟨"src/exports/screens/index.ts"⟩, .created⟩, ⟨⟨"src/exports/index.ts"⟩, .created⟩,
    ⟨⟨"package.json"⟩, .created⟩]

theorem eq_ok_of_toOption {ε α : Type} {x : Except ε α} {a : α} (h : x.toOption = some a) :
    x = .ok a := by
  cases x with
  | error e => cases h
  | ok b => exact congrArg _ (Option.some.inj h)

/-- A run for it succeeds, and so does each of its writes, at a place of its own. -/
theorem authored_run (climbs : Bool) :
    ((authoredGenerator climbs).run {} authoredDisk).outcome.toOption.map (·.artifacts) =
        some (authoredRecords climbs) ∧
      ((authoredGenerator climbs).attempts {} authoredDisk).map
          (fun t => (t.spot, t.outcome.toOption)) =
        [(["o", "hooks", "context-hooks.ts"], some .created),
          (["o", "hooks", "utility.ts"], some .preserved),
          (["o", "hooks", "common.ts"], some .created), (["o", "src", "index.ts"], some .created),
          (["o", "src", "exports", "screens", "index.ts"], some .created),
          (["o", "src", "exports", "index.ts"], some .created),
          (["o", "package.json"], some .created)] := by
  cases climbs <;> decide +kernel

theorem authored_ok (climbs : Bool) : ∃ report,
    ((authoredGenerator climbs).run {} authoredDisk).outcome = .ok report ∧
      report.artifacts = authoredRecords climbs := by
  obtain ⟨report, hreport, hartifacts⟩ := Option.map_eq_some_iff.1 (authored_run climbs).1
  exact ⟨report, eq_ok_of_toOption hreport, hartifacts⟩

theorem authored_written (climbs : Bool) :
    (∀ t ∈ (authoredGenerator climbs).attempts {} authoredDisk, t.Succeeds) ∧
      (((authoredGenerator climbs).attempts {} authoredDisk).map (·.spot)).Nodup := by
  have hattempts := (authored_run climbs).2
  constructor
  · intro t ht
    have hmem := List.mem_map_of_mem (f := fun t : Attempt => (t.spot, t.outcome.toOption)) ht
    rw [hattempts] at hmem
    cases ho : t.outcome with
    | ok o => exact ⟨o, ho⟩
    | error e =>
      rw [ho] at hmem
      simp [Except.toOption] at hmem
  · have hspots := congrArg (List.map Prod.fst) hattempts
    rw [List.map_map] at hspots
    exact hspots ▸ by decide

/-- The dry run foresees that the authored module is kept. -/
theorem preview_faithful_kept : ∃ report preview,
    IsTree authoredDisk ∧
    ((authoredGenerator false).run {} authoredDisk).outcome = .ok report ∧
    (∀ t ∈ (authoredGenerator false).attempts {} authoredDisk, t.Succeeds) ∧
    (((authoredGenerator false).attempts {} authoredDisk).map (·.spot)).Nodup ∧
    ((authoredGenerator false).run (Options.preview {}) authoredDisk).outcome = .ok preview ∧
    ⟨⟨"hooks/utility.ts"⟩, .preserved⟩ ∈ preview.artifacts := by
  obtain ⟨report, hok, hrecords⟩ := authored_ok false
  obtain ⟨hwritten, hdistinct⟩ := authored_written false
  obtain ⟨preview, hpreview, -, -, -, -, -, hiff, -⟩ :=
    preview_faithful_iff authored_tree rfl hok hwritten hdistinct
  refine ⟨report, preview, authored_tree, hok, hwritten, hdistinct, hpreview, ?_⟩
  rw [hiff.2 (by rw [hrecords]; decide), hrecords]
  decide

/-- Behind a directory that is missing the dry run overlooks the authored module: it
would write it, and the run keeps it. -/
theorem preview_astray : ∃ report preview,
    IsTree authoredDisk ∧
    ((authoredGenerator true).run {} authoredDisk).outcome = .ok report ∧
    (∀ t ∈ (authoredGenerator true).attempts {} authoredDisk, t.Succeeds) ∧
    (((authoredGenerator true).attempts {} authoredDisk).map (·.spot)).Nodup ∧
    ⟨⟨"new/../hooks/utility.ts"⟩, .preserved⟩ ∈ report.artifacts ∧
    ((authoredGenerator true).run (Options.preview {}) authoredDisk).outcome = .ok preview ∧
    ⟨⟨"new/../hooks/utility.ts"⟩, .dryRun⟩ ∈ preview.artifacts ∧
    preview.artifacts ≠ report.artifacts.map Record.foreseen := by
  obtain ⟨report, hok, hrecords⟩ := authored_ok true
  obtain ⟨hwritten, hdistinct⟩ := authored_written true
  obtain ⟨c, rfl⟩ := completed_of_ok hok
  have hpreview := (c.preview authored_tree rfl (c.run_eq.2.2 ▸ hwritten)
    (c.run_eq.2.2 ▸ hdistinct)).1
  refine ⟨c.report, _, authored_tree, hok, hwritten, hdistinct, ?_, hpreview, ?_, ?_⟩
  · rw [hrecords]
    decide
  · simp only [hrecords]
    decide
  · simp only [hrecords]
    decide

end Generator

end ScreenHooks.Run
