/-
Runs in which no write fails.

If every artifact of a run can be written as long as something holds of the
disk, and each write keeps that, the run succeeds and writes all screens that
could be prepared. The other way round, a run in which no write failed has
written all of them, with their artifacts in order.

* **`completed_of_accepts`** — a run whose writes keep what they need;
* **`Completed.all_written`** — what such a run has written;
* **`Completed.accepts_other`** — other disks where the same can be written.
-/
import ScreenHooks.Proofs.Output.Clear
import ScreenHooks.Proofs.Run.Passage

namespace ScreenHooks.Run

open Disk Output

/-- The screens that could be prepared. -/
def screensOf (prepared : List Prepared) : List PreparedUnit :=
  prepared.filterMap fun p => match p with
    | .ok screen => some screen
    | .error _ => none

/-- The screens that could not be prepared, with the reasons. -/
def skippedOf (prepared : List Prepared) : List Skipped :=
  prepared.filterMap fun p => match p with
    | .ok _ => none
    | .error (name, e) => some ⟨name, e.message⟩

theorem screensOf_error (failed : String × RunError) (rest : List Prepared) :
    screensOf (.error failed :: rest) = screensOf rest := rfl

theorem screensOf_ok (screen : PreparedUnit) (rest : List Prepared) :
    screensOf (.ok screen :: rest) = screen :: screensOf rest := rfl

theorem mem_screensOf {prepared : List Prepared} {screen : PreparedUnit} :
    screen ∈ screensOf prepared ↔ .ok screen ∈ prepared := by
  induction prepared with
  | nil => simp [screensOf]
  | cons p rest ih =>
    cases p with
    | error failed => simp [screensOf_error, ih]
    | ok other => simp [screensOf_ok, ih]

theorem skipped_of_mem {prepared : List Prepared} {name : String} {e : RunError}
    (h : .error (name, e) ∈ prepared) : ⟨name, e.message⟩ ∈ skippedOf prepared :=
  List.mem_filterMap.2 ⟨_, h, rfl⟩

/-- Whether a writer can write an artifact on all disks of a kind, and leaves
such a disk. -/
def Accepts (w : Writer) (kept : Disk → Prop) (a : Artifact) : Prop :=
  ∀ d, kept d → (∃ o, ((w.write a).apply d).1 = .ok o) ∧ kept ((w.write a).apply d).2

theorem attemptOf_succeeds {w : Writer} {d : Disk} {a : Artifact}
    (h : ∃ o, ((w.write a).apply d).1 = .ok o) : (attemptOf w d a).Succeeds := h

/-- A writer accepts what lies on a clear disk with legible files. -/
theorem clear_accepts {w : Writer} {a : Artifact} {paths : List Path} (ha : w.target a ∈ paths) :
    Accepts w (fun e => Clear e paths ∧ ∀ p ∈ paths, ¬ Illegible e (e.spot p)) a := by
  rintro d ⟨hclear, hlegible⟩
  refine ⟨hclear.succeeds ha (hlegible _ ha), hclear.write ha, fun p hp => ?_⟩
  rw [spot_congr (write_effect w a d).here_eq]
  exact legible_stays (hlegible p hp)

/-- A writer accepts what it need not change. -/
theorem kept_accepts {w : Writer} {a : Artifact} {d : Disk} {existing : Option String}
    (hread : d.readIfExists (w.target a) = .ok existing)
    (hkept : Writer.changes (w.outcome a existing) = false) : Accepts w (· = d) a := by
  rintro e rfl
  rw [write_kept hread hkept]
  exact ⟨⟨_, rfl⟩, rfl⟩

/-- What is written for screens that are prepared. -/
def Generator.screenArtifacts (g : Generator) (options : Options) (package : String)
    (screens : List PreparedUnit) : List Artifact :=
  screens.flatMap fun screen => g.screenArtifact screen ::
    if options.writeExamples then [g.document package screen] else []

variable {g : Generator} {options : Options} {package : String} {kept : Disk → Prop}

theorem Generator.mergedManifest_ok_iff {manifest : Option String} {emitted : List EmittedScreen}
    {merged : Artifact} :
    g.mergedManifest manifest emitted = .ok merged ↔
      ∃ text, mergeManifest manifest (manifestEntries g.config.output emitted)
          g.config.output.rootEntry = .ok text ∧
        merged = .generated g.config.output.manifest text := by
  unfold mergedManifest
  simp only []
  cases hmerge : mergeManifest manifest (manifestEntries g.config.output emitted)
      g.config.output.rootEntry with
  | error e => simp
  | ok text => simp [eq_comm]

/-! ### From acceptance to success -/

theorem SharedSteps.of_accepts {w : Writer} {artifacts : List Artifact} {d : Disk}
    (h : ∀ a ∈ artifacts, Accepts w kept a) (hd : kept d) :
    ∃ ts last, SharedSteps w d artifacts ts last ∧ kept last ∧
      ∀ t ∈ ts, kept t.before ∧ t.Succeeds := by
  induction artifacts generalizing d with
  | nil => exact ⟨[], d, .nil d, hd, by simp⟩
  | cons a rest ih =>
    obtain ⟨⟨o, ho⟩, hafter⟩ := h a List.mem_cons_self d hd
    obtain ⟨ts, last, hsteps, hlast, hbefore⟩ :=
      ih (fun b hb => h b (List.mem_cons_of_mem _ hb)) hafter
    refine ⟨_, last, .cons o (Prod.ext ho rfl) hsteps, hlast, fun t ht => ?_⟩
    rcases List.mem_cons.1 ht with rfl | ht
    · exact ⟨hd, o, ho⟩
    · exact hbefore t ht

namespace Generator

/-- One prepared screen is written if its artifacts are accepted. -/
theorem ScreenStep.of_accepts {screen : PreparedUnit} {d : Disk}
    (h : ∀ a ∈ g.screenArtifacts options package [screen], Accepts (g.writer options) kept a)
    (hd : kept d) :
    ∃ ts last, ScreenStep g options package d (.ok screen) [screen] [] ts last ∧ kept last ∧
      ∀ t ∈ ts, kept t.before ∧ t.Succeeds := by
  have hmodule : Accepts (g.writer options) kept (g.screenArtifact screen) :=
    h _ (by simp [Generator.screenArtifacts])
  obtain ⟨⟨o, ho⟩, hmid⟩ := hmodule d hd
  cases hwrite : ((g.writer options).write (g.screenArtifact screen)).apply d with
  | mk outcome mid =>
    rw [hwrite] at ho hmid
    simp only at ho hmid
    subst ho
    have hsucceeds : (attemptOf (g.writer options) d (g.screenArtifact screen)).Succeeds :=
      attemptOf_succeeds ⟨o, by rw [hwrite]⟩
    -- the document is written to the disk that the module has left
    cases hexamples : options.writeExamples with
    | false =>
      refine ⟨_, _, .written screen o mid hexamples hwrite, hmid, fun t ht => ?_⟩
      rw [List.mem_singleton.1 ht]
      exact ⟨hd, hsucceeds⟩
    | true =>
      have hdocument : Accepts (g.writer options) kept (g.document package screen) :=
        h _ (by simp [Generator.screenArtifacts, hexamples])
      refine ⟨_, _, .documented screen o mid hexamples hwrite, (hdocument _ hmid).2, fun t ht => ?_⟩
      rcases List.mem_cons.1 ht with rfl | ht
      · exact ⟨hd, hsucceeds⟩
      · rw [List.mem_singleton.1 ht]
        exact ⟨hmid, attemptOf_succeeds (hdocument mid hmid).1⟩

theorem ScreenSteps.of_accepts {prepared : List Prepared} {d : Disk}
    (h : ∀ a ∈ g.screenArtifacts options package (screensOf prepared),
      Accepts (g.writer options) kept a) (hd : kept d) :
    ∃ ts last, ScreenSteps g options package d prepared (screensOf prepared) (skippedOf prepared)
      ts last ∧ kept last ∧ ∀ t ∈ ts, kept t.before ∧ t.Succeeds := by
  induction prepared generalizing d with
  | nil => exact ⟨[], d, .nil d, hd, by simp⟩
  | cons p rest ih =>
    cases p with
    | error failed =>
      obtain ⟨name, e⟩ := failed
      obtain ⟨ts, last, hsteps, hlast, hbefore⟩ := ih h hd
      exact ⟨_, last, .cons (.unprepared name e) hsteps, hlast, hbefore⟩
    | ok screen =>
      -- the artifacts of the first screen come before those of the others
      have hsplit : g.screenArtifacts options package (screensOf (.ok screen :: rest)) =
          g.screenArtifacts options package [screen] ++
            g.screenArtifacts options package (screensOf rest) := by
        simp [Generator.screenArtifacts, screensOf_ok]
      rw [hsplit] at h
      obtain ⟨us, mid, hfirst, hmid, hbefore⟩ :=
        ScreenStep.of_accepts (fun a ha => h a (List.mem_append_left _ ha)) hd
      obtain ⟨ts, last, hsteps, hlast, hmore⟩ :=
        ih (fun a ha => h a (List.mem_append_right _ ha)) hmid
      refine ⟨_, last, .cons hfirst hsteps, hlast, fun t ht => ?_⟩
      rcases List.mem_append.1 ht with ht | ht
      · exact hbefore t ht
      · exact hmore t ht

/-- A run succeeds and writes all prepared screens if its artifacts are
accepted. -/
theorem completed_of_accepts {d : Disk} {manifest : Option String} {prepared : List Prepared}
    {merged : Artifact} (hread : (g.readAll d).1 = .ok (manifest, prepared))
    (hmerged : g.mergedManifest manifest ((screensOf prepared).map g.emitted) = .ok merged)
    (hscreens : ∀ a ∈ g.screenArtifacts options (packageName manifest) (screensOf prepared),
      Accepts (g.writer options) kept a)
    (hshared : ∀ a ∈ g.sharedArtifacts ((screensOf prepared).map g.emitted) ++ [merged],
      Accepts (g.writer options) kept a) (hd : kept d) :
    ∃ c : Completed g options d, (c.manifest = manifest ∧ c.prepared = prepared ∧
      c.merged = merged ∧ c.shipped = screensOf prepared ∧ c.skipped = skippedOf prepared) ∧
      kept c.last ∧ ∀ t ∈ c.ts ++ c.us, kept t.before ∧ t.Succeeds := by
  obtain ⟨ts, mid, hsteps, hmid, hts⟩ := ScreenSteps.of_accepts hscreens hd
  obtain ⟨us, last, hrest, hlast, hus⟩ := SharedSteps.of_accepts hshared hmid
  refine ⟨⟨manifest, prepared, _, _, ts, mid, merged, us, last, hread, hsteps, hmerged, hrest⟩,
    ⟨rfl, rfl, rfl, rfl, rfl⟩, hlast, fun t ht => ?_⟩
  rcases List.mem_append.1 ht with ht | ht
  · exact hts t ht
  · exact hus t ht

/-! ### From success to what was written -/

/-- Only screens that could be prepared are written. -/
theorem ScreenSteps.shipped_prepared {d last : Disk} {prepared : List Prepared}
    {shipped : List PreparedUnit} {skipped : List Skipped} {ts : List Attempt}
    (h : ScreenSteps g options package d prepared shipped skipped ts last) :
    ∀ screen ∈ shipped, screen ∈ screensOf prepared := by
  induction h with
  | nil => simp
  | cons hfirst _ ih =>
    intro screen hscreen
    simp only [mem_screensOf] at ih ⊢
    rcases List.mem_append.1 hscreen with hscreen | hscreen
    · cases hfirst with
      | unprepared => cases hscreen
      | unwritten => cases hscreen
      | written other =>
        rw [List.mem_singleton.1 hscreen]
        exact List.mem_cons_self
      | documented other =>
        rw [List.mem_singleton.1 hscreen]
        exact List.mem_cons_self
    · exact List.mem_cons_of_mem _ (ih screen hscreen)

/-- Where no attempt fails, all prepared screens are written. -/
theorem ScreenSteps.all_written {d last : Disk} {prepared : List Prepared}
    {shipped : List PreparedUnit} {skipped : List Skipped} {ts : List Attempt}
    (h : ScreenSteps g options package d prepared shipped skipped ts last)
    (hok : ∀ t ∈ ts, t.Succeeds) :
    shipped = screensOf prepared ∧ skipped = skippedOf prepared ∧
      ts.map (·.artifact) = g.screenArtifacts options package shipped := by
  induction h with
  | nil => exact ⟨rfl, rfl, rfl⟩
  | cons hfirst hrest ih =>
    obtain ⟨hshipped, hskipped, hartifacts⟩ :=
      ih fun t ht => hok t (List.mem_append_right _ ht)
    subst hshipped hskipped
    rw [List.map_append, hartifacts]
    cases hfirst with
    | unprepared name e => exact ⟨rfl, rfl, rfl⟩
    | unwritten screen e mid hmodule =>
      obtain ⟨o, ho⟩ := hok _ (List.mem_append_left _ List.mem_cons_self)
      rw [attemptOf, hmodule] at ho
      cases ho
    | written screen o mid hexamples hmodule =>
      refine ⟨rfl, rfl, ?_⟩
      simp [Generator.screenArtifacts, hexamples, attemptOf]
    | documented screen o mid hexamples hmodule =>
      refine ⟨rfl, rfl, ?_⟩
      simp [Generator.screenArtifacts, hexamples, attemptOf]

/-- A run in which no attempt fails has written all prepared screens, and what
it wrote is known. -/
theorem Completed.all_written {d : Disk} (c : Completed g options d)
    (hok : ∀ t ∈ c.ts ++ c.us, t.Succeeds) :
    c.shipped = screensOf c.prepared ∧ c.skipped = skippedOf c.prepared ∧
      (c.ts ++ c.us).map (·.artifact) =
        g.screenArtifacts options (packageName c.manifest) c.shipped ++
          (g.sharedArtifacts (c.shipped.map g.emitted) ++ [c.merged]) := by
  obtain ⟨hshipped, hskipped, hts⟩ :=
    c.screens.all_written fun t ht => hok t (List.mem_append_left _ ht)
  refine ⟨hshipped, hskipped, ?_⟩
  rw [List.map_append, hts, c.shared.artifacts_eq]

/-- On a clear disk with legible files a run succeeds, and what it writes is
known. -/
theorem completed_of_clear {d : Disk} {paths : List Path} (hclear : Clear d paths)
    (hlegible : ∀ p ∈ paths, ¬ Illegible d (d.spot p)) {manifest : Option String}
    {prepared : List Prepared} {merged : Artifact}
    (hread : (g.readAll d).1 = .ok (manifest, prepared))
    (hmerged : g.mergedManifest manifest ((screensOf prepared).map g.emitted) = .ok merged)
    (htargets : ∀ a ∈ g.screenArtifacts options (packageName manifest) (screensOf prepared) ++
      (g.sharedArtifacts ((screensOf prepared).map g.emitted) ++ [merged]), g.target a ∈ paths) :
    ∃ c : Completed g options d, c.prepared = prepared ∧ c.shipped = screensOf prepared ∧
      (∀ t ∈ c.ts ++ c.us, t.Succeeds) ∧
      (c.ts ++ c.us).map (·.artifact) =
        g.screenArtifacts options (packageName manifest) (screensOf prepared) ++
          (g.sharedArtifacts ((screensOf prepared).map g.emitted) ++ [merged]) := by
  obtain ⟨c, ⟨hmanifest, hprepared, hsame, hshipped, -⟩, -, hattempts⟩ :=
    completed_of_accepts hread hmerged
      (fun a ha => clear_accepts (htargets a (List.mem_append_left _ ha)))
      (fun a ha => clear_accepts (htargets a (List.mem_append_right _ ha))) ⟨hclear, hlegible⟩
  have hsucceeds : ∀ t ∈ c.ts ++ c.us, t.Succeeds := fun t ht => (hattempts t ht).2
  refine ⟨c, hprepared, hshipped, hsucceeds, ?_⟩
  rw [(c.all_written hsucceeds).2.2, hmanifest, hsame, hshipped]

/-- The targets of a run in which no attempt failed are accepted on another disk, with
whatever text, if it is as clear there and no file in their place is illegible. -/
theorem Completed.accepts_other {d other : Disk} (c : Completed g options d)
    (hground : Grounded d) (hok : ∀ t ∈ c.ts ++ c.us, t.Succeeds)
    (hreads : ∀ t ∈ c.ts ++ c.us, ∀ existing, d.readIfExists t.target = .ok existing →
      other.readIfExists t.target = .ok existing)
    (hclear : ∀ {paths : List Path}, Clear d paths → Clear other paths)
    (hlegible : ∀ t ∈ c.ts ++ c.us, ¬ Illegible other (other.spot t.target)) :
    ∃ kept : Disk → Prop, kept other ∧ ∀ a : Artifact,
      (∃ t ∈ c.ts ++ c.us, t.artifact.path = a.path) → Accepts (g.writer options) kept a := by
  have htarget : ∀ {a : Artifact} {t : Attempt}, t ∈ c.ts ++ c.us → t.artifact.path = a.path →
      (g.writer options).target a = t.target := by
    intro a t ht hpath
    rw [(c.attempt_spot ht).1, target, hpath]
    rfl
  cases hdry : options.dryRun with
  | true =>
    -- nothing changes, and all targets read as before
    have hbefore := (c.trail.of_dry fun t ht => by rw [c.attempt_writer ht]; exact hdry).2
    refine ⟨(· = other), rfl, ?_⟩
    rintro a ⟨t, ht, hpath⟩
    obtain ⟨o, ho⟩ := hok t ht
    rw [c.trail.outcome_eq ht, hbefore t ht] at ho
    obtain ⟨existing, hread, -⟩ := read_of_success ho
    have hreadOther := hreads t ht existing hread
    rw [← htarget ht hpath] at hreadOther
    exact kept_accepts hreadOther (changes_dry hdry a existing)
  | false =>
    have hclearBefore := clear_of_succeeds c.trail hground
      (fun t ht => by rw [c.attempt_writer ht]; exact hdry) hok
    refine ⟨fun e => Clear e ((c.ts ++ c.us).map (·.target)) ∧
      ∀ p ∈ (c.ts ++ c.us).map (·.target), ¬ Illegible e (e.spot p),
      ⟨hclear hclearBefore, fun p hp => ?_⟩, ?_⟩
    · obtain ⟨t, ht, rfl⟩ := List.mem_map.1 hp
      exact hlegible t ht
    · rintro a ⟨t, ht, hpath⟩
      refine clear_accepts ?_
      rw [htarget ht hpath]
      exact List.mem_map_of_mem ht

end Generator

end ScreenHooks.Run
