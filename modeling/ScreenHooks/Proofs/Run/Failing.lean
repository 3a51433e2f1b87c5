/-
Runs that fail.

A run fails while it reads, before anything is written, or while it writes what
all screens share. In the second case the manifest comes last: a run that fails
has not replaced it. What has changed on the disk by then are directories that
were made and files that hold the whole content of an artifact of the run.

* **`prepareAll_error_iff`** — reading fails where finding the screens fails;
* **`failed_attempts`** — what a run that fails while writing has tried;
* **`run_failed`** — what a run that fails leaves behind.
-/
import ScreenHooks.Proofs.Run.Preparing
import ScreenHooks.Proofs.Run.Steady

namespace ScreenHooks.Run

open Disk Output Script Sdk

variable {α β : Type}

/-! ### Readings that do not fail -/

/-- Whether a reading ends with an outcome, whatever it is told. -/
def Total (x : Reading α) : Prop :=
  ∀ (scope : Scope) (d : Disk) (p : Project), ∃ a, ((x.inquiry scope).answer d p).1 = .ok a

namespace Total

theorem pure (a : α) : Total (Pure.pure a) := fun _ _ _ => ⟨a, rfl⟩

theorem bind {x : Reading α} {f : α → Reading β} (hx : Total x) (hf : ∀ a, Total (f a)) :
    Total (x >>= f) := by
  intro scope d p
  obtain ⟨a, ha⟩ := hx scope d p
  rw [Reading.inquiry_bind, Inquiry.answer_bind, ha]
  exact hf a scope d _

theorem attempt (x : Reading α) : Total (Run.attempt x) := by
  intro scope d p
  rw [attempt_inquiry, Inquiry.answer_bind]
  exact ⟨_, rfl⟩

theorem mapM {f : α → Reading β} (hf : ∀ a, Total (f a)) (l : List α) : Total (l.mapM f) := by
  induction l with
  | nil => exact pure []
  | cons a rest ih =>
    rw [List.mapM_cons]
    exact (hf a).bind fun b => ih.bind fun more => pure (b :: more)

theorem runBind {ε : Type} {x : ExceptT ε Reading α} {f : α → ExceptT ε Reading β}
    (hx : Total x.run) (hf : ∀ a, Total (f a).run) : Total (x >>= f).run := by
  rw [ExceptT.run_bind]
  refine hx.bind fun outcome => ?_
  cases outcome with
  | ok a => exact hf a
  | error e => exact pure _

theorem runLift {ε : Type} {x : Reading α} (hx : Total x) :
    Total (liftM x : ExceptT ε Reading α).run := hx.bind fun a => pure (Except.ok a)

theorem companion (unit : String) (role : CompanionRole) (path : Path) :
    Total (Run.companion unit role path).run := by
  unfold Run.companion
  refine runBind (runLift (attempt _)) fun outcome => ?_
  cases outcome with
  | error e => exact pure _
  | ok found => cases found <;> exact pure _

theorem markedOf (resolved : Resolved) : Total (Run.markedOf resolved) := by
  unfold Run.markedOf
  refine bind (attempt _) fun outcome => ?_
  split <;> exact pure _

theorem prepare (core : CoreConfig) (allow : Screen.AllowList) (found : FoundScreen) :
    Total (Run.prepare core allow found).run := by
  unfold Run.prepare
  refine runBind (x := read) (fun scope _ _ => ⟨.ok scope, rfl⟩) fun scope => ?_
  refine runBind (companion _ _ _) fun implementation => ?_
  refine runBind (companion _ _ _) fun declarations => ?_
  refine runBind (runLift (attempt _)) fun outcome => ?_
  cases outcome with
  | error e => exact pure _
  | ok interfaces => exact runBind (runLift (markedOf _)) fun marked => pure _

theorem prepareFound (config : Config) (allow : Screen.AllowList) (found : FoundScreen) :
    Total (Run.prepareFound config allow found) := by
  unfold Run.prepareFound
  refine bind (prepare _ _ _) fun outcome => ?_
  cases outcome <;> exact pure _

end Total

/-- Preparing the screens fails exactly where finding them does. -/
theorem prepareAll_error_iff (config : Config) (allow : Screen.AllowList) {d : Disk} {p : Project}
    {e : Failure} :
    ((prepareAll config allow).run d p).1 = .error e ↔
      ((discovery config).run d p).1 = .error e := by
  unfold Reading.run
  rw [prepareAll_eq, Reading.inquiry_bind, Inquiry.answer_bind]
  cases ((discovery config).inquiry (p.scope d)).answer d p with
  | mk outcome after =>
    cases outcome with
    | error e' =>
      show (.error e' : Except Failure (List Prepared)) = .error e ↔
        (.error e' : Except Failure (List FoundScreen)) = .error e
      simp
    | ok found =>
      obtain ⟨prepared, hprepared⟩ :=
        Total.mapM (Total.prepareFound config allow) found (p.scope d) d after
      simp [hprepared]

namespace Generator

variable {g : Generator} {options : Options} {d : Disk} {e : Failure}

/-- Reading fails if the manifest cannot be read or the screens cannot be found. -/
theorem readAll_error_iff :
    (g.readAll d).1 = .error e ↔
      (∃ cause, d.readIfExists g.manifestPath = .error cause ∧ e = .file cause) ∨
        (∃ manifest, d.readIfExists g.manifestPath = .ok manifest) ∧
          ((discovery g.config).run d g.project).1 = .error e := by
  rw [← prepareAll_error_iff g.config g.allow]
  unfold readAll prepareAll
  cases d.readIfExists g.manifestPath with
  | error cause => simp [eq_comm]
  | ok manifest =>
    cases hrun : (Run.prepareAll g.config g.allow).run d g.project with
    | mk outcome project => cases outcome <;> simp [Except.map]

/-! ### What is tried before a failure -/

/-- The artifacts of a run besides the manifest. -/
def besides (g : Generator) (options : Options) (d : Disk) : List Artifact :=
  match (g.readAll d).1 with
  | .error _ => []
  | .ok (manifest, prepared) =>
    g.screenArtifacts options (packageName manifest) (screensOf prepared) ++
      g.sharedArtifacts ((g.shipped options d).map g.emitted)

/-- What is tried for the screens are artifacts of prepared screens. -/
theorem ScreenSteps.among {package : String} {last : Disk} {prepared : List Prepared}
    {shipped : List PreparedUnit} {skipped : List Skipped} {ts : List Attempt}
    (h : ScreenSteps g options package d prepared shipped skipped ts last) {t : Attempt}
    (ht : t ∈ ts) : t.artifact ∈ g.screenArtifacts options package (screensOf prepared) := by
  induction h with
  | nil => cases ht
  | @cons d mid last p rest _ _ _ _ us vs hfirst _ ih =>
    have hsplit : g.screenArtifacts options package (screensOf (p :: rest)) =
        g.screenArtifacts options package (screensOf [p]) ++
          g.screenArtifacts options package (screensOf rest) := by
      cases p <;> simp [screenArtifacts, screensOf]
    rw [hsplit]
    rcases List.mem_append.1 ht with ht | ht
    · refine List.mem_append_left _ ?_
      -- a step tries the module of its screen, and the document behind it
      cases hfirst with
      | unprepared => cases ht
      | unwritten screen =>
        rw [List.mem_singleton.1 ht]
        simp [screenArtifacts, screensOf, attemptOf]
      | written screen =>
        rw [List.mem_singleton.1 ht]
        simp [screenArtifacts, screensOf, attemptOf]
      | documented screen o mid hexamples =>
        rcases List.mem_cons.1 ht with rfl | ht
        · simp [screenArtifacts, screensOf, attemptOf]
        · rw [List.mem_singleton.1 ht]
          simp [screenArtifacts, screensOf, attemptOf, hexamples]
    · exact List.mem_append_right _ (ih ht)

theorem writeAllShared_among {w : Writer} {artifacts : List Artifact} {report : Report} {d : Disk}
    {t : Attempt} (ht : t ∈ (writeAllShared report artifacts).run.attempts w d) :
    t.artifact ∈ artifacts := by
  unfold writeAllShared at ht
  induction artifacts generalizing report d with
  | nil => cases ht
  | cons a rest ih =>
    rw [List.foldlM_cons, ExceptT.run_bind, Plan.attempts_bind, writeShared_attempts,
      writeShared_carryOut] at ht
    rcases List.mem_append.1 ht with ht | ht
    · rw [List.mem_singleton.1 ht]
      exact List.mem_cons_self
    · cases hwrite : ((w.write a).apply d).1 with
      | error e =>
        rw [hwrite] at ht
        cases ht
      | ok o =>
        rw [hwrite] at ht
        exact List.mem_cons_of_mem _ (ih ht)

/-- Where shared artifacts cannot all be written, the failure names one. -/
theorem writeAllShared_error {w : Writer} {artifacts : List Artifact} {report : Report} {d : Disk}
    (h : ((writeAllShared report artifacts).run.carryOut w d).1 = .error e) :
    ∃ a ∈ artifacts, ∃ message, e = .run (.sharedWrite a.path message) := by
  unfold writeAllShared at h
  induction artifacts generalizing report d with
  | nil => cases h
  | cons a rest ih =>
    rw [List.foldlM_cons, ExceptT.run_bind, Plan.carryOut_bind, writeShared_carryOut] at h
    cases hwrite : ((w.write a).apply d).1 with
    | error cause =>
      rw [hwrite] at h
      exact ⟨a, List.mem_cons_self, _, (Except.error.inj h).symm⟩
    | ok o =>
      rw [hwrite] at h
      obtain ⟨b, hb, hfailed⟩ := ih h
      exact ⟨b, List.mem_cons_of_mem _ hb, hfailed⟩

theorem mergedManifest_error {manifest : Option String} {emitted : List EmittedScreen}
    (h : g.mergedManifest manifest emitted = .error e) :
    ∃ path message, e = .run (.sharedWrite path message) := by
  unfold mergedManifest at h
  simp only [] at h
  cases hmerge : mergeManifest manifest (manifestEntries g.config.output emitted)
      g.config.output.rootEntry with
  | ok text =>
    rw [hmerge] at h
    cases h
  | error cause =>
    rw [hmerge] at h
    exact ⟨_, _, (Except.error.inj h).symm⟩

/-- The last step of a run. -/
def writeManifest (g : Generator) (manifest : Option String) (emitted : List EmittedScreen)
    (report : Report) : Plan (Except Failure Report) :=
  match g.mergedManifest manifest emitted with
  | .error e => pure (.error e)
  | .ok merged => (writeShared report merged).run

/-- Where the last step fails, nothing has been written by it. -/
theorem writeManifest_error {manifest : Option String} {emitted : List EmittedScreen}
    {report : Report} {w : Writer}
    (h : ((g.writeManifest manifest emitted report).carryOut w d).1 = .error e) :
    (∃ path message, e = .run (.sharedWrite path message)) ∧
      ∀ t ∈ (g.writeManifest manifest emitted report).attempts w d, ¬ t.Succeeds := by
  unfold writeManifest at h ⊢
  -- the merge fails before anything is tried, the write as it is tried
  cases hmerged : g.mergedManifest manifest emitted with
  | error e' =>
    rw [hmerged] at h
    obtain rfl : e' = e := Except.error.inj h
    refine ⟨mergedManifest_error hmerged, fun t ht => ?_⟩
    rw [Plan.attempts_pure] at ht
    cases ht
  | ok merged =>
    rw [hmerged] at h
    simp only [writeShared_carryOut] at h
    simp only [writeShared_attempts]
    cases hwrite : ((w.write merged).apply d).1 with
    | ok o =>
      rw [hwrite] at h
      cases h
    | error cause =>
      rw [hwrite] at h
      refine ⟨⟨merged.path, _, (Except.error.inj h).symm⟩, fun t ht => ?_⟩
      rintro ⟨o, ho⟩
      rw [List.mem_singleton.1 ht, attemptOf, hwrite] at ho
      cases ho

/-- A run that fails after reading fails at something that the screens share. All
that it has written are artifacts besides the manifest. -/
theorem failed_attempts {manifest : Option String} {prepared : List Prepared}
    (hread : (g.readAll d).1 = .ok (manifest, prepared))
    (h : (g.run options d).outcome = .error e) :
    (∃ path message, e = .run (.sharedWrite path message)) ∧
      ∀ t ∈ g.attempts options d, t.Succeeds → t.artifact ∈ g.besides options d := by
  obtain ⟨shipped, skipped, ts, mid, hsteps, -⟩ :=
    foldlM_steps g options (packageName manifest) ⟨{ dryRun := options.dryRun }, []⟩ prepared d
  obtain ⟨hscreens, hts⟩ := writeScreens_iff.1 hsteps
  have hshipped : g.shipped options d = shipped := by
    unfold Generator.shipped
    rw [hread]
    exact congrArg (·.1.shipped) hscreens
  have hbesides : g.besides options d =
      g.screenArtifacts options (packageName manifest) (screensOf prepared) ++
        g.sharedArtifacts (shipped.map g.emitted) := by
    unfold besides
    rw [hread, hshipped]
  have hscreen : ∀ t ∈ ts, t.artifact ∈ g.besides options d := fun t ht =>
    hbesides ▸ List.mem_append_left _ (hsteps.among ht)
  have hshared : ∀ {report : Report} {t : Attempt},
      t ∈ (writeAllShared report (g.sharedArtifacts (shipped.map g.emitted))).run.attempts
        (g.writer options) mid → t.artifact ∈ g.besides options d := fun ht =>
    hbesides ▸ List.mem_append_right _ (writeAllShared_among ht)
  rw [run_outcome, hread, plan, writeAll_run, Plan.carryOut_bind, hscreens, Plan.carryOut_bind] at h
  unfold attempts
  rw [hread, plan, writeAll_run, Plan.attempts_bind, hscreens, hts, Plan.attempts_bind]
  simp only [afterScreens] at h ⊢
  cases hrest : (writeAllShared (afterScreens options shipped skipped ts).report
      (g.sharedArtifacts (shipped.map g.emitted))).run.carryOut (g.writer options) mid with
  | mk outcome next =>
    simp only [afterScreens] at hrest
    rw [hrest] at h ⊢
    cases outcome with
    | error e' =>
      obtain rfl : e' = e := Except.error.inj h
      obtain ⟨a, -, message, he⟩ := writeAllShared_error (congrArg Prod.fst hrest)
      refine ⟨⟨a.path, message, he⟩, fun t ht _ => ?_⟩
      rw [Plan.attempts_pure, List.append_nil] at ht
      exact (List.mem_append.1 ht).elim (hscreen t) hshared
    | ok report =>
      -- the manifest is tried last, and in vain
      obtain ⟨hfailure, hvain⟩ := writeManifest_error h
      refine ⟨hfailure, fun t ht hsucceeds => ?_⟩
      rcases List.mem_append.1 ht with ht | ht
      · exact hscreen t ht
      rcases List.mem_append.1 ht with ht | ht
      · exact hshared ht
      · exact absurd hsucceeds (hvain t ht)

/-! ### What a failed run leaves -/

/-- A run that fails after reading leaves a place as it was, makes a directory where
nothing was, or puts one of its artifacts besides the manifest there. -/
theorem failed_changed {manifest : Option String} {prepared : List Prepared}
    (hread : (g.readAll d).1 = .ok (manifest, prepared)) (h : (g.run options d).outcome = .error e)
    (place : Place) :
    (g.run options d).disk.at? place = d.at? place ∨
      (d.at? place = none ∧ (g.run options d).disk.at? place = some .directory) ∨
      ∃ a ∈ g.besides options d, place = d.spot (g.target a) ∧
        (g.run options d).disk.at? place = some (.file (.text a.content)) := by
  rcases (g.run_trail options d).changed place with hsame | hmade | ⟨t, ht, hreplaces, hat⟩
  · exact .inl hsame
  · exact .inr (.inl hmade)
  · have htarget : t.target = g.target t.artifact := by
      rw [Attempt.target, Plan.writer_eq ht]
      rfl
    rw [htarget] at hat
    -- what succeeds in a failed run was not the manifest
    exact .inr (.inr ⟨t.artifact, (failed_attempts hread h).2 t ht hreplaces.succeeds, hat⟩)

/-- A run that fails while it reads changes nothing. One that fails later fails at
something that the screens share; it leaves the manifest as it was, unless another
artifact goes there, and all files where they were, and every file that it has
changed holds the whole content of an artifact of the run. -/
theorem run_failed (h : (g.run options d).outcome = .error e) :
    (((∃ cause, d.readIfExists g.manifestPath = .error cause ∧ e = .file cause) ∨
        (∃ manifest, d.readIfExists g.manifestPath = .ok manifest) ∧
          ((discovery g.config).run d g.project).1 = .error e) ∧ (g.run options d).disk = d) ∨
      (∃ found, (g.readAll d).1 = .ok found) ∧
        (∃ path message, e = .run (.sharedWrite path message)) ∧
        ((∀ a ∈ g.besides options d, d.spot (g.target a) ≠ d.spot g.manifestPath) →
          ∀ contents, (g.run options d).disk.at? (d.spot g.manifestPath) = some (.file contents) ↔
            d.at? (d.spot g.manifestPath) = some (.file contents)) ∧
        (∀ place contents, d.at? place = some (.file contents) →
          ∃ contents', (g.run options d).disk.at? place = some (.file contents')) ∧
        ∀ place contents, (g.run options d).disk.at? place = some (.file contents) →
          d.at? place ≠ some (.file contents) →
          ∃ a ∈ g.besides options d, place = d.spot (g.target a) ∧ contents = .text a.content := by
  cases hread : (g.readAll d).1 with
  | error e' =>
    rw [run_outcome, hread] at h
    obtain rfl : e' = e := Except.error.inj h
    refine .inl ⟨readAll_error_iff.1 hread, ?_⟩
    rw [run_disk, hread]
    rfl
  | ok found =>
    obtain ⟨manifest, prepared⟩ := found
    have hchanged := failed_changed hread h
    refine .inr ⟨⟨_, rfl⟩, (failed_attempts hread h).1, fun hother contents => ?_,
      fun place contents hfile => ?_, fun place contents hafter hbefore => ?_⟩
    -- the manifest, the files from before, and the files that differ
    · rcases hchanged (d.spot g.manifestPath) with hsame | ⟨hnone, hmade⟩ | ⟨a, ha, hspot, -⟩
      · rw [hsame]
      · rw [hnone, hmade]
        simp
      · exact absurd hspot.symm (hother a ha)
    · rcases hchanged place with hsame | ⟨hnone, -⟩ | ⟨a, -, -, hat⟩
      · exact ⟨contents, hsame.trans hfile⟩
      · rw [hnone] at hfile
        cases hfile
      · exact ⟨_, hat⟩
    · rcases hchanged place with hsame | ⟨-, hmade⟩ | ⟨a, ha, hspot, hat⟩
      · exact absurd (hsame ▸ hafter) hbefore
      · rw [hmade] at hafter
        cases hafter
      · rw [hat] at hafter
        cases hafter
        exact ⟨a, ha, hspot, rfl⟩

/-- A core package without screens, and a directory where the utility module is to be
written. -/
def blockedDisk : Disk where
  entries := [(["c"], .directory), (["c", "all.ts"], .file (.text "")),
    (["o"], .directory), (["o", "package.json"], .file (.text "\x7b\x7d")),
    (["o", "src"], .directory), (["o", "src", "hooks"], .directory),
    (["o", "src", "hooks", "utility.ts"], .directory)]

def blockedGenerator : Generator where
  config :=
    { core := { root := ⟨"/c"⟩, screensBarrel := ⟨"all.ts"⟩ }
      output := { root := ⟨"/o"⟩ } }
  home := none
  project := { root := ⟨"/c"⟩ }
  allow := .empty

theorem run_failed_blocked :
    (∃ path message, (blockedGenerator.run {} blockedDisk).outcome =
      .error (.run (.sharedWrite path message))) ∧
    (blockedGenerator.run {} blockedDisk).disk.at? ["o", "package.json"] =
      some (.file (.text "\x7b\x7d")) ∧
    blockedDisk.at? ["o", "src", "hooks", "context-hooks.ts"] = none ∧
    ∃ a ∈ blockedGenerator.besides {} blockedDisk,
      (blockedGenerator.run {} blockedDisk).disk.at? ["o", "src", "hooks", "context-hooks.ts"] =
        some (.file (.text a.content)) := by
  obtain ⟨e, houtcome⟩ : ∃ e, (blockedGenerator.run {} blockedDisk).outcome = .error e :=
    exists_error (by decide +kernel)
  have hspot : blockedDisk.spot blockedGenerator.manifestPath = ["o", "package.json"] := by
    decide +kernel
  have hother : ∀ a ∈ blockedGenerator.besides {} blockedDisk,
      blockedDisk.spot (blockedGenerator.target a) ≠ ["o", "package.json"] := by
    decide +kernel
  have hnew : blockedDisk.at? ["o", "src", "hooks", "context-hooks.ts"] = none := by decide +kernel
  have hwritten : ∃ text, (blockedGenerator.run {} blockedDisk).disk.at?
      ["o", "src", "hooks", "context-hooks.ts"] = some (.file (.text text)) := by
    obtain ⟨text, htext⟩ : ∃ text, (blockedGenerator.run {} blockedDisk).disk.readText
        ⟨"/o/src/hooks/context-hooks.ts"⟩ = .ok text := exists_ok (by decide +kernel)
    exact ⟨text, (readText_ok_iff.1 htext).2.2⟩
  -- the run does not fail while it reads
  rcases run_failed houtcome with ⟨hreads, -⟩ | ⟨-, ⟨path, message, rfl⟩, hmanifest, -, hchanged⟩
  · obtain ⟨found, hfound⟩ : ∃ found, (blockedGenerator.readAll blockedDisk).1 = .ok found :=
      exists_ok (by decide +kernel)
    rw [readAll_error_iff.2 hreads] at hfound
    cases hfound
  · rw [hspot] at hmanifest
    obtain ⟨text, htext⟩ := hwritten
    obtain ⟨a, ha, -, hcontent⟩ := hchanged _ _ htext (by rw [hnew]; simp)
    refine ⟨⟨path, message, houtcome⟩, (hmanifest hother _).2 (by decide +kernel), hnew, a, ha, ?_⟩
    rw [htext, hcontent]

end Generator

end ScreenHooks.Run
