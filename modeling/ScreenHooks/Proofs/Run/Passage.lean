/-
How a run passes through its screens and shared artifacts.

`ScreenStep` lists what can happen to one prepared screen, `ScreenSteps` strings
them together, and `SharedSteps` is the rest of a run that succeeds. A run
succeeds exactly if it is made of these, and its report records what they tried.

* **`writeScreens_steps`** — the screens of a run;
* **`run_ok_iff`** — a run that succeeds, step by step.
-/
import ScreenHooks.Proofs.Output.Writes
import ScreenHooks.Run.Generator

namespace ScreenHooks.Run

open Disk Output

/-! ### Attempts and records -/

/-- What an attempt adds to a report. -/
def recordOf (t : Attempt) : Option Record :=
  match t.outcome with
  | .ok outcome => some ⟨t.artifact.path, outcome⟩
  | .error _ => none

/-- What a writer does with an artifact on a disk. -/
def attemptOf (w : Writer) (d : Disk) (a : Artifact) : Attempt :=
  ⟨w, d, a, ((w.write a).apply d).1⟩

namespace Generator

variable {g : Generator} {options : Options} {package : String}

/-- What a run tries to write. -/
def attempts (g : Generator) (options : Options) (d : Disk) : List Attempt :=
  (g.plan options (g.readAll d).1).attempts (g.writer options) d

/-- A run carries out the plan for what it has read. -/
theorem run_carryOut (g : Generator) (options : Options) (d : Disk) :
    ((g.run options d).outcome, (g.run options d).disk) =
      (g.plan options (g.readAll d).1).carryOut (g.writer options) d := by
  unfold run
  cases g.readAll d with
  | mk found project =>
    cases hwritten : (g.plan options found).carryOut (g.writer options) d with
    | mk outcome after => simp only [hwritten]

theorem run_disk (g : Generator) (options : Options) (d : Disk) :
    (g.run options d).disk = ((g.plan options (g.readAll d).1).carryOut (g.writer options) d).2 :=
  congrArg Prod.snd (run_carryOut g options d)

theorem run_outcome (g : Generator) (options : Options) (d : Disk) :
    (g.run options d).outcome =
      ((g.plan options (g.readAll d).1).carryOut (g.writer options) d).1 :=
  congrArg Prod.fst (run_carryOut g options d)

/-- The attempts of a run lead from the disk before to the disk after. -/
theorem run_trail (g : Generator) (options : Options) (d : Disk) :
    Trail d (g.attempts options d) (g.run options d).disk := by
  rw [run_disk]
  exact Plan.trail _ _ d

/-! ### Screens -/

/-- What happens to one prepared screen: the screens that are written, those
that are skipped, the attempts, and the disk afterwards. -/
inductive ScreenStep (g : Generator) (options : Options) (package : String) (d : Disk) :
    Prepared → List PreparedUnit → List Skipped → List Attempt → Disk → Prop where
  /-- The screen could not be prepared. -/
  | unprepared (name : String) (e : RunError) :
      ScreenStep g options package d (.error (name, e)) [] [⟨name, e.message⟩] [] d
  /-- The module cannot be written. -/
  | unwritten (screen : PreparedUnit) (e : FileError) (mid : Disk)
      (hmodule : ((g.writer options).write (g.screenArtifact screen)).apply d = (.error e, mid)) :
      ScreenStep g options package d (.ok screen) [] [⟨screen.unit.name, e.fullMessage⟩]
        [attemptOf (g.writer options) d (g.screenArtifact screen)] mid
  /-- The module is written, and no document. -/
  | written (screen : PreparedUnit) (o : WriteOutcome) (mid : Disk)
      (hexamples : options.writeExamples = false)
      (hmodule : ((g.writer options).write (g.screenArtifact screen)).apply d = (.ok o, mid)) :
      ScreenStep g options package d (.ok screen) [screen] []
        [attemptOf (g.writer options) d (g.screenArtifact screen)] mid
  /-- The module is written, and the document may be. -/
  | documented (screen : PreparedUnit) (o : WriteOutcome) (mid : Disk)
      (hexamples : options.writeExamples = true)
      (hmodule : ((g.writer options).write (g.screenArtifact screen)).apply d = (.ok o, mid)) :
      ScreenStep g options package d (.ok screen) [screen] []
        [attemptOf (g.writer options) d (g.screenArtifact screen),
          attemptOf (g.writer options) mid (g.document package screen)]
        (((g.writer options).write (g.document package screen)).apply mid).2

/-- Prepared screens in turn. -/
inductive ScreenSteps (g : Generator) (options : Options) (package : String) :
    Disk → List Prepared → List PreparedUnit → List Skipped → List Attempt → Disk → Prop where
  | nil (d : Disk) : ScreenSteps g options package d [] [] [] [] d
  | cons {d mid last : Disk} {p : Prepared} {rest : List Prepared}
      {shipped more : List PreparedUnit} {skipped others : List Skipped} {ts us : List Attempt}
      (hfirst : ScreenStep g options package d p shipped skipped ts mid)
      (hrest : ScreenSteps g options package mid rest more others us last) :
      ScreenSteps g options package d (p :: rest) (shipped ++ more) (skipped ++ others)
        (ts ++ us) last

/-- How far a run has come after more screens. -/
def Progress.extend (progress : Progress) (shipped : List PreparedUnit) (skipped : List Skipped)
    (ts : List Attempt) : Progress where
  report :=
    { dryRun := progress.report.dryRun
      screens := progress.report.screens ++ shipped.map (·.unit.name)
      artifacts := progress.report.artifacts ++ ts.filterMap recordOf
      skipped := progress.report.skipped ++ skipped }
  shipped := progress.shipped ++ shipped

theorem Progress.extend_extend (progress : Progress) (a b : List PreparedUnit)
    (s u : List Skipped) (ts us : List Attempt) :
    (progress.extend a s ts).extend b u us = progress.extend (a ++ b) (s ++ u) (ts ++ us) := by
  simp [extend, List.append_assoc]

theorem Progress.extend_nil (progress : Progress) : progress.extend [] [] [] = progress := by
  simp [extend]

theorem writeDocument_carryOut (screen : PreparedUnit) (report : Report) (d : Disk) :
    (g.writeDocument package screen report).carryOut (g.writer options) d =
      ({ report with artifacts := report.artifacts ++
          [attemptOf (g.writer options) d (g.document package screen)].filterMap recordOf },
        (((g.writer options).write (g.document package screen)).apply d).2) := by
  rw [writeDocument, Plan.carryOut_bind, Plan.carryOut_attempt]
  cases hdoc : ((g.writer options).write (g.document package screen)).apply d with
  | mk outcome last =>
    cases outcome <;>
      simp [attemptOf, recordOf, hdoc, Report.record, Plan.carryOut_pure, List.filterMap_cons]

theorem writeDocument_attempts (screen : PreparedUnit) (report : Report) (d : Disk) :
    (g.writeDocument package screen report).attempts (g.writer options) d =
      [attemptOf (g.writer options) d (g.document package screen)] := by
  rw [writeDocument, Plan.attempts_bind, Plan.attempts_attempt, Plan.carryOut_attempt]
  cases hdoc : ((g.writer options).write (g.document package screen)).apply d with
  | mk outcome last => cases outcome <;> simp [attemptOf, hdoc, Plan.attempts_pure]

/-- Writing one screen is one of the steps. -/
theorem writeScreen_step (g : Generator) (options : Options) (package : String)
    (progress : Progress) (p : Prepared) (d : Disk) :
    ∃ shipped skipped ts last, ScreenStep g options package d p shipped skipped ts last ∧
      (g.writeScreen options package progress p).carryOut (g.writer options) d =
        (progress.extend shipped skipped ts, last) ∧
      (g.writeScreen options package progress p).attempts (g.writer options) d = ts := by
  cases p with
  | error failed =>
    obtain ⟨name, e⟩ := failed
    refine ⟨_, _, _, _, .unprepared name e, ?_, rfl⟩
    rw [writeScreen, Plan.carryOut_pure]
    simp [Progress.extend, Report.skip]
  | ok screen =>
    unfold writeScreen
    rw [Plan.carryOut_bind, Plan.attempts_bind, Plan.carryOut_attempt, Plan.attempts_attempt]
    have hattempt : attemptOf (g.writer options) d (g.screenArtifact screen) =
        ⟨g.writer options, d, g.screenArtifact screen,
          (((g.writer options).write (g.screenArtifact screen)).apply d).1⟩ := rfl
    rw [← hattempt]
    -- the document of a screen is tried only behind its module
    cases hmodule : ((g.writer options).write (g.screenArtifact screen)).apply d with
    | mk outcome mid =>
      cases outcome with
      | error e =>
        refine ⟨_, _, _, _, .unwritten screen e mid hmodule, ?_, rfl⟩
        have hrecord : recordOf (attemptOf (g.writer options) d (g.screenArtifact screen)) = none := by
          rw [recordOf, hattempt, hmodule]
        show (_, mid) = _
        simp [Progress.extend, Report.skip, hrecord]
      | ok o =>
        have hrecord : recordOf (attemptOf (g.writer options) d (g.screenArtifact screen)) =
            some ⟨(g.screenArtifact screen).path, o⟩ := by
          rw [recordOf, hattempt, hmodule]
        cases hexamples : options.writeExamples with
        | false =>
          refine ⟨_, _, _, _, .written screen o mid hexamples hmodule, ?_, rfl⟩
          show (_, mid) = _
          simp [Progress.extend, Report.record, Report.list, hrecord]
        | true =>
          refine ⟨_, _, _, _, .documented screen o mid hexamples hmodule, ?_, ?_⟩
          · simp only [if_true]
            rw [Plan.carryOut_bind, writeDocument_carryOut, Plan.carryOut_pure]
            simp only [attemptOf] at hrecord
            simp [Progress.extend, Report.list, Report.record, attemptOf, hrecord]
          · simp only [if_true]
            rw [Plan.attempts_bind, writeDocument_attempts, Plan.attempts_pure]
            rfl

/-- Writing the screens is a sequence of steps. -/
theorem foldlM_steps (g : Generator) (options : Options) (package : String)
    (progress : Progress) (prepared : List Prepared) (d : Disk) :
    ∃ shipped skipped ts last, ScreenSteps g options package d prepared shipped skipped ts last ∧
      (prepared.foldlM (g.writeScreen options package) progress).carryOut (g.writer options) d =
        (progress.extend shipped skipped ts, last) ∧
      (prepared.foldlM (g.writeScreen options package) progress).attempts (g.writer options) d =
        ts := by
  induction prepared generalizing progress d with
  | nil => exact ⟨[], [], [], d, .nil d, by rw [progress.extend_nil]; rfl, rfl⟩
  | cons p rest ih =>
    obtain ⟨shipped, skipped, ts, mid, hfirst, hcarry, hattempts⟩ :=
      writeScreen_step g options package progress p d
    obtain ⟨more, others, us, last, hrest, hcarryRest, hattemptsRest⟩ :=
      ih (progress.extend shipped skipped ts) mid
    refine ⟨_, _, _, _, .cons hfirst hrest, ?_, ?_⟩
    · rw [List.foldlM_cons, Plan.carryOut_bind, hcarry, hcarryRest, Progress.extend_extend]
    · rw [List.foldlM_cons, Plan.attempts_bind, hcarry, hattempts, hattemptsRest]

/-- What a step leads to is determined. -/
theorem ScreenStep.unique {d : Disk} {p : Prepared} {shipped more : List PreparedUnit}
    {skipped others : List Skipped} {ts us : List Attempt} {a b : Disk}
    (h : ScreenStep g options package d p shipped skipped ts a)
    (h' : ScreenStep g options package d p more others us b) :
    shipped = more ∧ skipped = others ∧ ts = us ∧ a = b := by
  -- the outcome of the module and the option tell the cases apart
  cases h with
  | unprepared =>
    cases h'
    exact ⟨rfl, rfl, rfl, rfl⟩
  | unwritten screen e mid hmodule =>
    cases h' with
    | unwritten _ _ _ hmodule' => cases hmodule.symm.trans hmodule'; exact ⟨rfl, rfl, rfl, rfl⟩
    | written _ _ _ _ hmodule' => cases hmodule.symm.trans hmodule'
    | documented _ _ _ _ hmodule' => cases hmodule.symm.trans hmodule'
  | written screen o mid hexamples hmodule =>
    cases h' with
    | unwritten _ _ _ hmodule' => cases hmodule.symm.trans hmodule'
    | written _ _ _ _ hmodule' => cases hmodule.symm.trans hmodule'; exact ⟨rfl, rfl, rfl, rfl⟩
    | documented _ _ _ hexamples' => rw [hexamples] at hexamples'; cases hexamples'
  | documented screen o mid hexamples hmodule =>
    cases h' with
    | unwritten _ _ _ hmodule' => cases hmodule.symm.trans hmodule'
    | written _ _ _ hexamples' => rw [hexamples] at hexamples'; cases hexamples'
    | documented _ _ _ _ hmodule' => cases hmodule.symm.trans hmodule'; exact ⟨rfl, rfl, rfl, rfl⟩

theorem ScreenSteps.unique {d : Disk} {prepared : List Prepared} {shipped more : List PreparedUnit}
    {skipped others : List Skipped} {ts us : List Attempt} {a b : Disk}
    (h : ScreenSteps g options package d prepared shipped skipped ts a)
    (h' : ScreenSteps g options package d prepared more others us b) :
    shipped = more ∧ skipped = others ∧ ts = us ∧ a = b := by
  induction h generalizing more others us b with
  | nil =>
    cases h'
    exact ⟨rfl, rfl, rfl, rfl⟩
  | cons hfirst _ ih =>
    cases h' with
    | cons hfirst' hrest' =>
      obtain ⟨rfl, rfl, rfl, rfl⟩ := hfirst.unique hfirst'
      obtain ⟨rfl, rfl, rfl, rfl⟩ := ih hrest'
      exact ⟨rfl, rfl, rfl, rfl⟩

/-- What is tried for a screen is its module, and then its document. -/
theorem ScreenStep.attempts_spec {d last : Disk} {p : Prepared} {shipped : List PreparedUnit}
    {skipped : List Skipped} {ts : List Attempt}
    (h : ScreenStep g options package d p shipped skipped ts last) {t : Attempt} (ht : t ∈ ts) :
    t.writer = g.writer options ∧
      ((∃ screen, t.artifact = g.screenArtifact screen ∧ (t.Succeeds → screen ∈ shipped)) ∨
        ∃ screen, t.artifact = g.document package screen) := by
  cases h with
  | unprepared => cases ht
  | unwritten screen e mid hmodule =>
    rw [List.mem_singleton.1 ht]
    refine ⟨rfl, .inl ⟨screen, rfl, ?_⟩⟩
    rintro ⟨o, ho⟩
    rw [attemptOf, hmodule] at ho
    cases ho
  | written screen o mid hexamples hmodule =>
    rw [List.mem_singleton.1 ht]
    exact ⟨rfl, .inl ⟨screen, rfl, fun _ => List.mem_cons_self⟩⟩
  | documented screen o mid hexamples hmodule =>
    rcases List.mem_cons.1 ht with rfl | ht
    · exact ⟨rfl, .inl ⟨screen, rfl, fun _ => List.mem_cons_self⟩⟩
    · rw [List.mem_singleton.1 ht]
      exact ⟨rfl, .inr ⟨screen, rfl⟩⟩

theorem ScreenSteps.attempts_spec {d last : Disk} {prepared : List Prepared}
    {shipped : List PreparedUnit} {skipped : List Skipped} {ts : List Attempt}
    (h : ScreenSteps g options package d prepared shipped skipped ts last) {t : Attempt}
    (ht : t ∈ ts) :
    t.writer = g.writer options ∧
      ((∃ screen, t.artifact = g.screenArtifact screen ∧ (t.Succeeds → screen ∈ shipped)) ∨
        ∃ screen, t.artifact = g.document package screen) := by
  induction h with
  | nil => cases ht
  | cons hfirst _ ih =>
    rcases List.mem_append.1 ht with ht | ht
    · obtain ⟨hw, ⟨screen, ha, hin⟩ | hdoc⟩ := hfirst.attempts_spec ht
      · exact ⟨hw, .inl ⟨screen, ha, fun hs => List.mem_append_left _ (hin hs)⟩⟩
      · exact ⟨hw, .inr hdoc⟩
    · obtain ⟨hw, ⟨screen, ha, hin⟩ | hdoc⟩ := ih ht
      · exact ⟨hw, .inl ⟨screen, ha, fun hs => List.mem_append_right _ (hin hs)⟩⟩
      · exact ⟨hw, .inr hdoc⟩

/-- The module of a shipped screen was written. -/
theorem ScreenSteps.shipped_spec {d last : Disk} {prepared : List Prepared}
    {shipped : List PreparedUnit} {skipped : List Skipped} {ts : List Attempt}
    (h : ScreenSteps g options package d prepared shipped skipped ts last) {screen : PreparedUnit}
    (hscreen : screen ∈ shipped) :
    ∃ t ∈ ts, t.writer = g.writer options ∧ t.artifact = g.screenArtifact screen ∧
      t.Succeeds := by
  induction h with
  | nil => cases hscreen
  | cons hfirst _ ih =>
    rcases List.mem_append.1 hscreen with hscreen | hscreen
    · cases hfirst with
      | unprepared => cases hscreen
      | unwritten => cases hscreen
      | written found o mid hexamples hmodule =>
        rw [List.mem_singleton.1 hscreen]
        exact ⟨_, List.mem_append_left _ List.mem_cons_self, rfl, rfl, o,
          by rw [attemptOf, hmodule]⟩
      | documented found o mid hexamples hmodule =>
        rw [List.mem_singleton.1 hscreen]
        exact ⟨_, List.mem_append_left _ List.mem_cons_self, rfl, rfl, o,
          by rw [attemptOf, hmodule]⟩
    · obtain ⟨t, ht, hfound⟩ := ih hscreen
      exact ⟨t, List.mem_append_right _ ht, hfound⟩

/-- How far a run is after its screens. -/
def afterScreens (options : Options) (shipped : List PreparedUnit) (skipped : List Skipped)
    (ts : List Attempt) : Progress where
  report :=
    { dryRun := options.dryRun
      screens := shipped.map (·.unit.name)
      artifacts := ts.filterMap recordOf
      skipped := skipped }
  shipped := shipped

/-- Writing the screens is the sequence of steps. -/
theorem writeScreens_iff {prepared : List Prepared} {d last : Disk} {shipped : List PreparedUnit}
    {skipped : List Skipped} {ts : List Attempt} :
    ScreenSteps g options package d prepared shipped skipped ts last ↔
      (g.writeScreens options package prepared).carryOut (g.writer options) d =
        (afterScreens options shipped skipped ts, last) ∧
      (g.writeScreens options package prepared).attempts (g.writer options) d = ts := by
  obtain ⟨more, others, us, after, hsteps, hcarry, hattempts⟩ :=
    foldlM_steps g options package
      ⟨{ dryRun := options.dryRun }, []⟩ prepared d
  have hstart : (⟨{ dryRun := options.dryRun }, []⟩ : Progress).extend more others us =
      afterScreens options more others us := by
    simp [Progress.extend, afterScreens]
  rw [hstart] at hcarry
  unfold writeScreens
  rw [hcarry, hattempts]
  constructor
  -- steps are determined, so they are those of the fold
  · intro h
    obtain ⟨rfl, rfl, rfl, rfl⟩ := hsteps.unique h
    exact ⟨rfl, rfl⟩
  · rintro ⟨hsame, rfl⟩
    obtain ⟨hprogress, rfl⟩ := Prod.mk.inj hsame
    have hshipped : more = shipped := congrArg Progress.shipped hprogress
    have hskipped : others = skipped := congrArg (·.report.skipped) hprogress
    subst hshipped hskipped
    exact hsteps

end Generator

/-! ### Shared artifacts -/

/-- Artifacts that are written one after another, without a failure. -/
inductive SharedSteps (w : Writer) : Disk → List Artifact → List Attempt → Disk → Prop where
  | nil (d : Disk) : SharedSteps w d [] [] d
  | cons {d mid last : Disk} {a : Artifact} {rest : List Artifact} {ts : List Attempt}
      (o : WriteOutcome) (hwrite : (w.write a).apply d = (.ok o, mid))
      (hrest : SharedSteps w mid rest ts last) :
      SharedSteps w d (a :: rest) (attemptOf w d a :: ts) last

namespace SharedSteps

variable {w : Writer} {d mid last : Disk} {a b : List Artifact} {ts us : List Attempt}

theorem append (ha : SharedSteps w d a ts mid) (hb : SharedSteps w mid b us last) :
    SharedSteps w d (a ++ b) (ts ++ us) last := by
  induction ha with
  | nil => exact hb
  | cons o hwrite _ ih => exact .cons o hwrite (ih hb)

theorem split (h : SharedSteps w d (a ++ b) ts last) :
    ∃ us vs mid, ts = us ++ vs ∧ SharedSteps w d a us mid ∧ SharedSteps w mid b vs last := by
  induction a generalizing d ts with
  | nil => exact ⟨[], ts, d, rfl, .nil d, h⟩
  | cons artifact rest ih =>
    cases h with
    | cons o hwrite hrest =>
      obtain ⟨us, vs, mid, rfl, ha, hb⟩ := ih hrest
      exact ⟨_, vs, mid, rfl, .cons o hwrite ha, hb⟩

theorem trail (h : SharedSteps w d a ts last) : Trail d ts last := by
  induction h with
  | nil => exact .nil _
  | cons o hwrite _ ih =>
    refine .cons w _ _ _ _ ?_
    rw [hwrite]
    exact ih

theorem unique {us : List Attempt} {other : Disk} (h : SharedSteps w d a ts last)
    (h' : SharedSteps w d a us other) : ts = us ∧ last = other := by
  induction h generalizing us other with
  | nil =>
    cases h'
    exact ⟨rfl, rfl⟩
  | cons o hwrite _ ih =>
    cases h' with
    | cons o' hwrite' hrest' =>
      cases hwrite.symm.trans hwrite'
      obtain ⟨rfl, rfl⟩ := ih hrest'
      exact ⟨rfl, rfl⟩

theorem artifacts_eq (h : SharedSteps w d a ts last) : ts.map (·.artifact) = a := by
  induction h with
  | nil => rfl
  | cons o hwrite _ ih => rw [List.map_cons, ih]; rfl

theorem succeeds (h : SharedSteps w d a ts last) {t : Attempt} (ht : t ∈ ts) :
    t.writer = w ∧ t.Succeeds := by
  induction h with
  | nil => cases ht
  | cons o hwrite _ ih =>
    rcases List.mem_cons.1 ht with rfl | ht
    · exact ⟨rfl, o, by rw [attemptOf, hwrite]⟩
    · exact ih ht

end SharedSteps

/-- A report with what more attempts add to it. -/
def Report.withAttempts (report : Report) (ts : List Attempt) : Report :=
  { report with artifacts := report.artifacts ++ ts.filterMap recordOf }

theorem Report.withAttempts_nil (report : Report) : report.withAttempts [] = report := by
  simp [withAttempts]

theorem Report.withAttempts_append (report : Report) (ts us : List Attempt) :
    report.withAttempts (ts ++ us) = (report.withAttempts ts).withAttempts us := by
  simp [withAttempts]

namespace Generator

theorem writeShared_run (report : Report) (a : Artifact) :
    (writeShared report a).run = Plan.attempt a >>= fun outcome => match outcome with
      | .ok o => pure (.ok (report.record a.path o))
      | .error e => pure (.error (.run (.sharedWrite a.path e.fullMessage))) := by
  unfold writeShared
  rw [ExceptT.run_bind]
  have hlift : (liftM (Plan.attempt a) : ExceptT Failure Plan _).run =
      Plan.attempt a >>= fun outcome => pure (Except.ok outcome) := rfl
  rw [hlift, bind_assoc]
  congr 1

theorem writeShared_carryOut (w : Writer) (report : Report) (a : Artifact) (d : Disk) :
    (writeShared report a).run.carryOut w d =
      (match ((w.write a).apply d).1 with
        | .ok _ => .ok (report.withAttempts [attemptOf w d a])
        | .error e => .error (.run (.sharedWrite a.path e.fullMessage)),
      ((w.write a).apply d).2) := by
  rw [writeShared_run, Plan.carryOut_bind, Plan.carryOut_attempt]
  cases hwrite : (w.write a).apply d with
  | mk outcome last =>
    cases outcome <;>
      simp [Plan.carryOut_pure, Report.withAttempts, Report.record, attemptOf, recordOf, hwrite]

theorem writeShared_attempts (w : Writer) (report : Report) (a : Artifact) (d : Disk) :
    (writeShared report a).run.attempts w d = [attemptOf w d a] := by
  rw [writeShared_run, Plan.attempts_bind, Plan.attempts_attempt, Plan.carryOut_attempt]
  cases hwrite : (w.write a).apply d with
  | mk outcome last => cases outcome <;> simp [Plan.attempts_pure, attemptOf, hwrite]

/-- Shared artifacts are written without a failure, or the run ends. -/
theorem writeAllShared_steps (w : Writer) (report : Report) (artifacts : List Artifact) (d : Disk) :
    (∃ ts last, SharedSteps w d artifacts ts last ∧
      (writeAllShared report artifacts).run.carryOut w d = (.ok (report.withAttempts ts), last) ∧
      (writeAllShared report artifacts).run.attempts w d = ts) ∨
    ((¬ ∃ ts last, SharedSteps w d artifacts ts last) ∧
      ∃ e, ((writeAllShared report artifacts).run.carryOut w d).1 = .error e) := by
  unfold writeAllShared
  induction artifacts generalizing report d with
  | nil => exact .inl ⟨[], d, .nil d, by rw [report.withAttempts_nil]; rfl, rfl⟩
  | cons a rest ih =>
    rw [List.foldlM_cons, ExceptT.run_bind, Plan.carryOut_bind, Plan.attempts_bind,
      writeShared_carryOut, writeShared_attempts]
    cases hwrite : (w.write a).apply d with
    | mk outcome mid =>
      cases outcome with
      | error e =>
        -- the first failure ends the run
        refine .inr ⟨?_, _, rfl⟩
        rintro ⟨ts, last, h⟩
        cases h with
        | cons o hok => rw [hwrite] at hok; cases hok
      | ok o =>
        rcases ih (report.withAttempts [attemptOf w d a]) mid with
          ⟨ts, last, hsteps, hcarry, hattempts⟩ | ⟨hnone, herror⟩
        · refine .inl ⟨_, last, .cons o hwrite hsteps, ?_, ?_⟩
          · simp only []
            rw [hcarry, ← Report.withAttempts_append]
            rfl
          · simp only []
            rw [hattempts]
            rfl
        · refine .inr ⟨?_, herror⟩
          rintro ⟨ts, last, h⟩
          cases h with
          | cons o' hok hrest =>
            rw [hwrite] at hok
            cases hok
            exact hnone ⟨_, _, hrest⟩

/-! ### Whole runs -/

/-- The steps of a run that succeeds. -/
structure Completed (g : Generator) (options : Options) (d : Disk) where
  manifest : Option String
  prepared : List Prepared
  shipped : List PreparedUnit
  skipped : List Skipped
  /-- What is tried for the screens. -/
  ts : List Attempt
  /-- The disk after the screens. -/
  mid : Disk
  /-- The manifest that is written. -/
  merged : Artifact
  /-- What is tried for the shared artifacts and the manifest. -/
  us : List Attempt
  last : Disk
  read_eq : (g.readAll d).1 = .ok (manifest, prepared)
  screens : ScreenSteps g options (packageName manifest) d prepared shipped skipped ts mid
  merged_eq : g.mergedManifest manifest (shipped.map g.emitted) = .ok merged
  shared : SharedSteps (g.writer options) mid
    (g.sharedArtifacts (shipped.map g.emitted) ++ [merged]) us last

/-- The report of a run that succeeds. -/
def Completed.report {g : Generator} {options : Options} {d : Disk} (c : Completed g options d) :
    Report where
  dryRun := options.dryRun
  screens := c.shipped.map (·.unit.name)
  artifacts := (c.ts ++ c.us).filterMap recordOf
  skipped := c.skipped

/-- A record of the report is the record of an attempt. -/
theorem Completed.record_attempt {g : Generator} {options : Options} {d : Disk}
    (c : Completed g options d) {r : Record} (hr : r ∈ c.report.artifacts) :
    ∃ t ∈ c.ts ++ c.us, t.artifact.path = r.path ∧ t.outcome = .ok r.outcome := by
  obtain ⟨t, ht, hrecord⟩ := List.mem_filterMap.1 hr
  refine ⟨t, ht, ?_⟩
  unfold recordOf at hrecord
  cases ho : t.outcome with
  | error e =>
    rw [ho] at hrecord
    cases hrecord
  | ok o =>
    rw [ho] at hrecord
    cases hrecord
    exact ⟨rfl, rfl⟩

theorem writeAll_run (g : Generator) (options : Options) (manifest : Option String)
    (prepared : List Prepared) :
    (g.writeAll options manifest prepared).run =
      g.writeScreens options (packageName manifest) prepared >>= fun progress =>
        (writeAllShared progress.report
          (g.sharedArtifacts (progress.shipped.map g.emitted))).run >>= fun written =>
            match written with
            | .error e => pure (.error e)
            | .ok report =>
              match g.mergedManifest manifest (progress.shipped.map g.emitted) with
              | .error e => pure (.error e)
              | .ok merged => (writeShared report merged).run := by
  unfold writeAll
  rw [ExceptT.run_bind]
  have hlift : (liftM (g.writeScreens options (packageName manifest) prepared) :
      ExceptT Failure Plan _).run =
      g.writeScreens options (packageName manifest) prepared >>= fun progress =>
        pure (Except.ok progress) := rfl
  rw [hlift, bind_assoc]
  congr 1
  funext progress
  rw [pure_bind]
  simp only [ExceptT.run_bind]
  congr 1
  funext written
  cases written with
  | error e => rfl
  | ok report =>
    cases hmerged : g.mergedManifest manifest (progress.shipped.map g.emitted) with
    | error e => simp; rfl
    | ok merged => simp; rfl

/-- The screens whose modules a run writes. -/
def shipped (g : Generator) (options : Options) (d : Disk) : List PreparedUnit :=
  match (g.readAll d).1 with
  | .error _ => []
  | .ok (manifest, prepared) =>
    ((g.writeScreens options (packageName manifest) prepared).carryOut (g.writer options) d).1.shipped

theorem Completed.shipped_eq {g : Generator} {options : Options} {d : Disk}
    (c : Completed g options d) : g.shipped options d = c.shipped := by
  unfold Generator.shipped
  rw [c.read_eq]
  show ((g.writeScreens options (packageName c.manifest) c.prepared).carryOut
    (g.writer options) d).1.shipped = _
  rw [(writeScreens_iff.1 c.screens).1, afterScreens]

/-- A run that is made of the steps succeeds. -/
theorem Completed.run_eq {g : Generator} {options : Options} {d : Disk}
    (c : Completed g options d) :
    (g.run options d).outcome = .ok c.report ∧ (g.run options d).disk = c.last ∧
      g.attempts options d = c.ts ++ c.us := by
  obtain ⟨us, vs, mid, hus, hshared, hmanifest⟩ := c.shared.split
  obtain ⟨hscreens, hscreensAttempts⟩ := writeScreens_iff.1 c.screens
  -- the shared artifacts, as the plan writes them
  have hcarry : (writeAllShared (afterScreens options c.shipped c.skipped c.ts).report
      (g.sharedArtifacts (c.shipped.map g.emitted))).run.carryOut (g.writer options) c.mid =
        (.ok ((afterScreens options c.shipped c.skipped c.ts).report.withAttempts us), mid) ∧
      (writeAllShared (afterScreens options c.shipped c.skipped c.ts).report
        (g.sharedArtifacts (c.shipped.map g.emitted))).run.attempts (g.writer options) c.mid =
        us := by
    rcases writeAllShared_steps (g.writer options)
      (afterScreens options c.shipped c.skipped c.ts).report _ c.mid with
      ⟨us', mid', hsteps, hcarry, hattempts⟩ | ⟨hnone, -⟩
    · obtain ⟨rfl, rfl⟩ := hsteps.unique hshared
      exact ⟨hcarry, hattempts⟩
    · exact absurd ⟨us, mid, hshared⟩ hnone
  cases hmanifest with
  | cons o hwrite hrest =>
    cases hrest
    have hplan : g.plan options (g.readAll d).1 =
        (g.writeAll options c.manifest c.prepared).run := by
      rw [c.read_eq, plan]
    have hwhole : (g.plan options (g.readAll d).1).carryOut (g.writer options) d =
        (.ok c.report, c.last) := by
      rw [hplan, writeAll_run, Plan.carryOut_bind, hscreens, Plan.carryOut_bind]
      simp only [afterScreens] at hcarry ⊢
      rw [hcarry.1]
      simp only [c.merged_eq]
      rw [writeShared_carryOut, hwrite]
      simp [Completed.report, Report.withAttempts, hus, attemptOf]
    refine ⟨?_, ?_, ?_⟩
    · rw [run_outcome, hwhole]
    · rw [run_disk, hwhole]
    · unfold attempts
      rw [hplan, writeAll_run, Plan.attempts_bind, hscreens, hscreensAttempts, Plan.attempts_bind]
      simp only [afterScreens] at hcarry ⊢
      rw [hcarry.1, hcarry.2]
      simp only [c.merged_eq]
      rw [writeShared_attempts, hus]

/-- A run that succeeds is made of the steps. -/
theorem completed_of_ok {g : Generator} {options : Options} {d : Disk} {report : Report}
    (h : (g.run options d).outcome = .ok report) :
    ∃ c : Completed g options d, report = c.report := by
  rw [run_outcome] at h
  cases hread : (g.readAll d).1 with
  | error e =>
    rw [hread, plan, Plan.carryOut_pure] at h
    cases h
  | ok found =>
    obtain ⟨manifest, prepared⟩ := found
    -- the screens cannot end the run, what they share can
    obtain ⟨shipped, skipped, ts, mid, hsteps, -⟩ :=
      foldlM_steps g options (packageName manifest)
        ⟨{ dryRun := options.dryRun }, []⟩ prepared d
    obtain ⟨hscreens, -⟩ := writeScreens_iff.1 hsteps
    rw [hread, plan, writeAll_run, Plan.carryOut_bind, hscreens, Plan.carryOut_bind] at h
    rcases writeAllShared_steps (g.writer options) (afterScreens options shipped skipped ts).report
      (g.sharedArtifacts (shipped.map g.emitted)) mid with
      ⟨us, next, hshared, hcarry, -⟩ | ⟨-, e, herror⟩
    · simp only [afterScreens] at hcarry h
      rw [hcarry] at h
      cases hmerged : g.mergedManifest manifest (shipped.map g.emitted) with
      | error e =>
        simp only [hmerged, Plan.carryOut_pure] at h
        cases h
      | ok merged =>
        simp only [hmerged] at h
        rw [writeShared_carryOut] at h
        cases hwrite : ((g.writer options).write merged).apply next with
        | mk outcome last =>
          rw [hwrite] at h
          cases outcome with
          | error e => cases h
          | ok o =>
            refine ⟨⟨manifest, prepared, shipped, skipped, ts, mid, merged, _, last, hread, hsteps,
              hmerged, hshared.append (.cons o hwrite (.nil last))⟩, ?_⟩
            rw [← Except.ok.inj h]
            simp [Completed.report, Report.withAttempts, attemptOf]
    · simp only [afterScreens] at herror h
      cases hrest : (writeAllShared (afterScreens options shipped skipped ts).report
        (g.sharedArtifacts (shipped.map g.emitted))).run.carryOut (g.writer options) mid with
      | mk outcome next =>
        simp only [afterScreens] at hrest
        rw [hrest] at herror h
        simp only at herror
        subst herror
        cases h

/-! ### The attempts of a run that succeeds -/

/-- The path that an artifact of a run is written to. -/
def target (g : Generator) (a : Artifact) : Path := g.outputRoot.join a.path

namespace Completed

variable {d : Disk} (c : Completed g options d)

theorem trail : Trail d (c.ts ++ c.us) c.last := by
  have h := g.run_trail options d
  rw [c.run_eq.2.1, c.run_eq.2.2] at h
  exact h

theorem attempt_writer {t : Attempt} (ht : t ∈ c.ts ++ c.us) : t.writer = g.writer options := by
  rcases List.mem_append.1 ht with ht | ht
  · exact (c.screens.attempts_spec ht).1
  · exact (c.shared.succeeds ht).1

/-- An attempt is made at the place of its artifact. -/
theorem attempt_spot {t : Attempt} (ht : t ∈ c.ts ++ c.us) :
    t.target = g.target t.artifact ∧ t.spot = d.spot (g.target t.artifact) := by
  have htarget : t.target = g.target t.artifact := by
    rw [Attempt.target, c.attempt_writer ht]
    rfl
  refine ⟨htarget, ?_⟩
  rw [Attempt.spot, htarget, spot_congr (c.trail.here_eq.2 t ht)]

end Completed

end Generator

end ScreenHooks.Run
