/-
Screens of a run, listed or left out.

A screen that is found can fail to be prepared or to be written. It is then left
out: the report lists it among the skipped ones, and nothing that the screens of
the run share says anything of it. The other screens are listed in the order in
which they were found, each with a module of its own, and what they share
gathers just these, in this order.

* **`Yields`** — what a reading ends with, whatever it is told;
* **`ScreenSteps.partition`** — the screens that are written and the others;
* **`screens_partition`** — the screens of a run that succeeds;
* **`Completed.entries_written`** — the subpaths of a run stand for its modules.
-/
import ScreenHooks.Proofs.Output.Entries
import ScreenHooks.Proofs.Run.Removal

namespace ScreenHooks.Run

open Disk Hook Output Sdk

variable {α β ε : Type}

/-! ### What readings end with -/

/-- Whether all that a reading can end with satisfies `P`, whatever it is told. -/
def Yields (x : Reading α) (P : α → Prop) : Prop :=
  ∀ (scope : Scope) (d : Disk) (p : Project) (a : α),
    ((x.inquiry scope).answer d p).1 = .ok a → P a

namespace Yields

variable {x : Reading α} {P : α → Prop} {Q : β → Prop}

theorem trivial (x : Reading α) : Yields x fun _ => True := fun _ _ _ _ _ => True.intro

theorem pure {a : α} (h : P a) : Yields (Pure.pure a) P := by
  intro scope d p b hb
  rw [← Except.ok.inj hb]
  exact h

theorem bind {f : α → Reading β} (hx : Yields x P) (hf : ∀ a, P a → Yields (f a) Q) :
    Yields (x >>= f) Q := by
  intro scope d p b hb
  rw [Reading.inquiry_bind, Inquiry.answer_bind] at hb
  cases houtcome : ((x.inquiry scope).answer d p).1 with
  | error e =>
    rw [houtcome] at hb
    cases hb
  | ok a =>
    rw [houtcome] at hb
    exact hf a (hx scope d p a houtcome) scope d _ b hb

/-- Where the first part may end with anything. -/
theorem after {f : α → Reading β} (hf : ∀ a, Yields (f a) Q) : Yields (x >>= f) Q :=
  (trivial x).bind fun a _ => hf a

/-- What goes on after a failure that is kept. -/
theorem runAfter {x : ExceptT ε Reading α} {f : α → ExceptT ε Reading β}
    (hf : ∀ a, Yields (f a).run fun outcome => ∀ b, outcome = .ok b → Q b) :
    Yields (x >>= f).run fun outcome => ∀ b, outcome = .ok b → Q b := by
  rw [ExceptT.run_bind]
  refine after fun outcome => ?_
  cases outcome with
  | ok a => exact hf a
  | error e => exact pure fun b hb => by cases hb

/-- The results of a list, item by item. -/
theorem mapM {R : α → β → Prop} {f : α → Reading β} (l : List α) (h : ∀ a, Yields (f a) (R a)) :
    Yields (l.mapM f) (List.Forall₂ R l) := by
  induction l with
  | nil => exact pure .nil
  | cons a rest ih =>
    rw [List.mapM_cons]
    exact (h a).bind fun b hb => ih.bind fun more hmore => pure (.cons hb hmore)

/-- Results that are made of some items of a list keep their order. -/
theorem filterMapM {key : β → α} {f : α → Reading (Option β)} (l : List α)
    (h : ∀ a, Yields (f a) fun result => ∀ b, result = some b → key b = a ∧ Q b) :
    Yields (l.filterMapM f) fun results => (results.map key).Sublist l ∧ ∀ b ∈ results, Q b := by
  induction l with
  | nil => exact pure ⟨List.Sublist.slnil, fun b hb => by cases hb⟩
  | cons a rest ih =>
    rw [List.filterMapM_cons]
    refine (h a).bind fun result hresult => ?_
    cases result with
    | none =>
      intro scope d p results hanswer
      obtain ⟨hkeys, hall⟩ := ih scope d p results hanswer
      exact ⟨hkeys.cons a, hall⟩
    | some b =>
      obtain ⟨hkey, hb⟩ := hresult b rfl
      refine ih.bind fun more hmore => pure ⟨?_, List.forall_mem_cons.2 ⟨hb, hmore.2⟩⟩
      rw [List.map_cons, hkey]
      exact hmore.1.cons_cons a

end Yields

/-! ### Names of found and prepared screens -/

/-- The screen behind a name has that name. -/
theorem yields_screen? (naming : Naming) (barrel : Path) (name : String) :
    Yields (screen? naming barrel name) fun result => ∀ screen, result = some screen →
      screen.name = name ∧ screen.kebab = naming.kebab screen.name := by
  unfold screen?
  refine Yields.after fun resolved => ?_
  cases resolved with
  | none => exact Yields.pure fun screen h => by cases h
  | some resolved =>
    refine Yields.pure fun screen h => ?_
    split at h
    · rw [← Option.some.inj h]
      exact ⟨rfl, rfl⟩
    · cases h

/-- No screen is found twice. -/
theorem yields_discovery (config : Config) :
    Yields (discovery config) fun found => (found.map (·.name)).Nodup ∧
      ∀ screen ∈ found, screen.kebab = config.naming.kebab screen.name := by
  unfold discovery discover
  refine Yields.after fun scope => Yields.after fun module => ?_
  have hfound : ∀ names : Names, Yields (names.toList.filterMapM
      (screen? config.naming (scope.path config.core.screensBarrel)))
      fun found => (found.map (·.name)).Nodup ∧
        ∀ screen ∈ found, screen.kebab = config.naming.kebab screen.name := by
    intro names scope' d p found hanswer
    obtain ⟨hnames, hkebabs⟩ :=
      Yields.filterMapM names.toList (yields_screen? _ _) scope' d p found hanswer
    exact ⟨hnames.nodup names.nodup, hkebabs⟩
  split
  · exact Yields.after fun _ => Yields.after hfound
  · exact Yields.after hfound

/-- The name of a screen, also if it could not be prepared. -/
def Prepared.name : Prepared → String
  | .error (name, _) => name
  | .ok screen => screen.unit.name

/-- Whether a screen that was found became an outcome. -/
def Became (found : FoundScreen) (p : Prepared) : Prop :=
  Prepared.name p = found.name ∧ ∀ screen, p = .ok screen → screen.unit.kebab = found.kebab

theorem yields_prepare (core : CoreConfig) (allow : Screen.AllowList) (found : FoundScreen) :
    Yields (prepare core allow found).run fun outcome => ∀ screen, outcome = .ok screen →
      screen.unit.name = found.name ∧ screen.unit.kebab = found.kebab := by
  unfold prepare
  refine Yields.runAfter fun scope => Yields.runAfter fun implementation => ?_
  refine Yields.runAfter fun declarations => Yields.runAfter fun outcome => ?_
  cases outcome with
  | error e => exact Yields.pure fun screen h => by cases h
  | ok interfaces =>
    refine Yields.runAfter fun marked => Yields.pure fun screen h => ?_
    rw [← Except.ok.inj h]
    exact ⟨rfl, rfl⟩

theorem yields_prepareFound (config : Config) (allow : Screen.AllowList) (found : FoundScreen) :
    Yields (prepareFound config allow found) (Became found) := by
  unfold prepareFound
  refine (yields_prepare config.core allow found).bind fun outcome houtcome => ?_
  cases outcome with
  | error e => exact Yields.pure ⟨rfl, fun screen h => by cases h⟩
  | ok screen =>
    obtain ⟨hname, hkebab⟩ := houtcome screen rfl
    refine Yields.pure ⟨hname, fun other hother => ?_⟩
    rw [← Except.ok.inj hother]
    exact hkebab

/-- The outcomes have the names of the screens that were found. -/
theorem became_names {found : List FoundScreen} {prepared : List Prepared}
    (h : List.Forall₂ Became found prepared) :
    prepared.map Prepared.name = found.map (·.name) ∧
      ∀ screen, .ok screen ∈ prepared → ∃ origin ∈ found,
        screen.unit.name = origin.name ∧ screen.unit.kebab = origin.kebab := by
  induction h with
  | nil => exact ⟨rfl, fun screen hscreen => by cases hscreen⟩
  | cons hfirst _ ih =>
    refine ⟨by rw [List.map_cons, List.map_cons, hfirst.1, ih.1], fun screen hscreen => ?_⟩
    rcases List.mem_cons.1 hscreen with hsame | hscreen
    · exact ⟨_, List.mem_cons_self, by rw [← hfirst.1, ← hsame]; rfl, hfirst.2 screen hsame.symm⟩
    · obtain ⟨origin, horigin, hunit⟩ := ih.2 screen hscreen
      exact ⟨origin, List.mem_cons_of_mem _ horigin, hunit⟩

/-- The prepared screens of a run are those that it finds, in their order. -/
theorem Generator.readAll_ok {g : Generator} {d : Disk} {manifest : Option String}
    {prepared : List Prepared} (h : (g.readAll d).1 = .ok (manifest, prepared)) :
    d.readIfExists g.manifestPath = .ok manifest ∧
      ∃ found, ((discovery g.config).run d g.project).1 = .ok found ∧
        List.Forall₂ Became found prepared := by
  unfold readAll at h
  cases hmanifest : d.readIfExists g.manifestPath with
  | error e =>
    rw [hmanifest] at h
    cases h
  | ok text =>
    rw [hmanifest] at h
    -- the manifest is read first, then the screens are prepared
    have hprepared : (g.prepareAll.run d g.project).1 = .ok prepared ∧ text = manifest := by
      cases hrun : g.prepareAll.run d g.project with
      | mk outcome project =>
        rw [hrun] at h
        cases outcome with
        | error e => cases h
        | ok screens =>
          obtain ⟨htext, hscreens⟩ := Prod.mk.inj (Except.ok.inj h)
          exact ⟨congrArg _ hscreens, htext⟩
    obtain ⟨hprepared, rfl⟩ := hprepared
    refine ⟨rfl, ?_⟩
    unfold prepareAll Reading.run at hprepared
    rw [prepareAll_eq, Reading.inquiry_bind, Inquiry.answer_bind] at hprepared
    unfold Reading.run
    cases hfound : (((discovery g.config).inquiry (g.project.scope d)).answer d g.project).1 with
    | error e =>
      rw [hfound] at hprepared
      cases hprepared
    | ok found =>
      rw [hfound] at hprepared
      exact ⟨found, rfl, Yields.mapM found (yields_prepareFound g.config g.allow) _ _ _ _ hprepared⟩

/-! ### Written or left out -/

/-- Whether two lists divide the names of a third between them and keep its order. -/
structure Divides (all first second : List String) : Prop where
  nodup : all.Nodup
  first_sublist : first.Sublist all
  second_sublist : second.Sublist all
  disjoint : ∀ name ∈ first, name ∉ second
  covers : ∀ name ∈ all, name ∈ first ∨ name ∈ second

/-- Lists that make up a third one divide it if it repeats nothing. -/
theorem divides_of_perm {all first second : List String} (hnodup : all.Nodup)
    (hfirst : first.Sublist all) (hsecond : second.Sublist all)
    (hperm : (first ++ second).Perm all) : Divides all first second where
  nodup := hnodup
  first_sublist := hfirst
  second_sublist := hsecond
  disjoint := fun _ hname hother =>
    (List.nodup_append.1 (hperm.nodup_iff.2 hnodup)).2.2 _ hname _ hother rfl
  covers := fun _ hname => List.mem_append.1 (hperm.mem_iff.2 hname)

/-- The module that an attempt has written, if it has written one. Documents are no
modules; they belong to their authors. -/
def writtenModule? (t : Attempt) : Option Artifact :=
  match t.outcome with
  | .ok _ => if t.artifact.policy = .always then some t.artifact else none
  | .error _ => none

namespace Generator

variable {g : Generator} {options : Options} {package : String} {d last : Disk}

/-- A screen is written or left out. -/
theorem ScreenStep.one {p : Prepared} {shipped : List PreparedUnit} {skipped : List Skipped}
    {ts : List Attempt} (h : ScreenStep g options package d p shipped skipped ts last) :
    (∃ screen, p = .ok screen ∧ shipped = [screen] ∧ skipped = []) ∨
      ∃ left, shipped = [] ∧ skipped = [left] ∧ left.name = Prepared.name p := by
  cases h with
  | unprepared name e => exact .inr ⟨_, rfl, rfl, rfl⟩
  | unwritten screen e => exact .inr ⟨_, rfl, rfl, rfl⟩
  | written screen => exact .inl ⟨screen, rfl, rfl, rfl⟩
  | documented screen => exact .inl ⟨screen, rfl, rfl, rfl⟩

/-- The screens of a run are written or left out, in their order. -/
theorem ScreenSteps.partition {prepared : List Prepared} {shipped : List PreparedUnit}
    {skipped : List Skipped} {ts : List Attempt}
    (h : ScreenSteps g options package d prepared shipped skipped ts last) :
    (shipped.map (·.unit.name)).Sublist (prepared.map Prepared.name) ∧
      (skipped.map (·.name)).Sublist (prepared.map Prepared.name) ∧
      (shipped.map (·.unit.name) ++ skipped.map (·.name)).Perm (prepared.map Prepared.name) := by
  induction h with
  | nil => exact ⟨.slnil, .slnil, .nil⟩
  | cons hfirst _ ih =>
    obtain ⟨hshipped, hskipped, hperm⟩ := ih
    rcases hfirst.one with ⟨screen, rfl, rfl, rfl⟩ | ⟨left, rfl, rfl, hname⟩
    · exact ⟨hshipped.cons_cons _, hskipped.cons _, hperm.cons _⟩
    · simp only [List.nil_append, List.cons_append, List.map_cons, hname]
      exact ⟨hshipped.cons _, hskipped.cons_cons _, List.perm_middle.trans (hperm.cons _)⟩

theorem writtenModule?_module {w : Writer} {screen : PreparedUnit} {o : WriteOutcome}
    (h : ((w.write (g.screenArtifact screen)).apply d).1 = .ok o) :
    writtenModule? (attemptOf w d (g.screenArtifact screen)) = some (g.screenArtifact screen) := by
  unfold writtenModule? attemptOf
  rw [h]
  rfl

theorem writtenModule?_document (w : Writer) (screen : PreparedUnit) :
    writtenModule? (attemptOf w d (g.document package screen)) = none := by
  unfold writtenModule?
  split <;> rfl

theorem writtenModule?_failed {w : Writer} {a : Artifact} {e : FileError}
    (h : ((w.write a).apply d).1 = .error e) : writtenModule? (attemptOf w d a) = none := by
  unfold writtenModule? attemptOf
  rw [h]

/-- Of the modules of screens, those of the written screens are written. -/
theorem ScreenSteps.modules {prepared : List Prepared} {shipped : List PreparedUnit}
    {skipped : List Skipped} {ts : List Attempt}
    (h : ScreenSteps g options package d prepared shipped skipped ts last) :
    ts.filterMap writtenModule? = shipped.map g.screenArtifact := by
  induction h with
  | nil => rfl
  | @cons d mid last p rest shipped more skipped others ts us hfirst _ ih =>
    rw [List.filterMap_append, List.map_append, ih]
    refine congrArg (· ++ _) ?_
    cases hfirst with
    | unprepared => rfl
    | unwritten screen e mid hmodule =>
      exact List.filterMap_cons_none (writtenModule?_failed (congrArg Prod.fst hmodule))
    | written screen o mid hexamples hmodule =>
      exact List.filterMap_cons_some (writtenModule?_module (congrArg Prod.fst hmodule))
    | documented screen o mid hexamples hmodule =>
      rw [List.filterMap_cons_some (writtenModule?_module (congrArg Prod.fst hmodule)),
        List.filterMap_cons_none (writtenModule?_document _ screen)]
      rfl

/-! ### What the screens share -/

/-- Whether the barrel re-exports something of a screen. -/
def exportsPrimary (screen : EmittedScreen) : Bool :=
  screen.values.contains screen.unit.primaryHook

/-- The line of the barrel for a screen. -/
def barrelLine (layout : Layout) (screen : EmittedScreen) : String :=
  exportLine [screen.unit.primaryHook] (specifierLiteral layout.barrel screen.module)

/-- The lines of the barrel for the hooks that belong to no screen. -/
def barrelEnd (layout : Layout) : List String :=
  ["", "export * from " ++ specifierLiteral layout.barrel (layout.hooksModule commonModule) ++ ";",
    exportLine [contextHooksFactory]
      (specifierLiteral layout.barrel (layout.hooksModule contextHooksModule))]

/-- The shared artifacts that say nothing of any screen. -/
def toolArtifacts (g : Generator) : List Artifact :=
  let layout := g.config.output
  [.generated (layout.hooksModule contextHooksModule) (contextHooksText g.config.settings),
    .companion (layout.hooksModule utilityModule) (utilityText g.config.settings),
    .companion (layout.hooksModule commonModule) (commonText g.config.settings)]

/-- The shared artifacts by the screens that they name: the barrel those that export
their primary hook, the namespaces and their index all of them, and the type modules
and their index those with types. -/
def gathered (g : Generator) (screens : List EmittedScreen) : List Artifact :=
  let layout := g.config.output
  g.toolArtifacts ++
    [.generated layout.barrel (endLines (generatedHeader ::
      ((screens.filter exportsPrimary).map (barrelLine layout) ++ barrelEnd layout)))] ++
    screens.map (namespaceArtifact layout) ++
    [.generated (layout.namespaceDir.child "index.ts")
      (endLines (generatedHeader :: screens.map indexLine))] ++
    (typed screens).map (typeArtifact layout) ++
    (if (typed screens).isEmpty then []
      else [.generated (layout.typeDir.child "index.ts")
        (endLines (generatedHeader :: (typed screens).map indexLine))]) ++
    [groupIndex layout screens]

theorem barrelLines_eq (layout : Layout) (screens : List EmittedScreen) :
    screens.filterMap (barrelLine? layout) =
      (screens.filter exportsPrimary).map (barrelLine layout) := by
  induction screens with
  | nil => rfl
  | cons screen rest ih =>
    have hline : barrelLine? layout screen =
        if exportsPrimary screen then some (barrelLine layout screen) else none := rfl
    cases hprimary : exportsPrimary screen with
    | false =>
      rw [hprimary] at hline
      rw [List.filterMap_cons_none hline, List.filter_cons_of_neg (by simp [hprimary]), ih]
    | true =>
      rw [hprimary] at hline
      rw [List.filterMap_cons_some hline, List.filter_cons_of_pos hprimary, ih, List.map_cons]

theorem sharedArtifacts_gathered (screens : List EmittedScreen) :
    g.sharedArtifacts screens = g.gathered screens := by
  have hbarrel : barrel g.config.output screens = .generated g.config.output.barrel
      (endLines (generatedHeader :: ((screens.filter exportsPrimary).map
        (barrelLine g.config.output) ++ barrelEnd g.config.output))) := by
    rw [barrel, barrelLines_eq]
    rfl
  have htypes : typeArtifacts g.config.output screens =
      (typed screens).map (typeArtifact g.config.output) ++
        if (typed screens).isEmpty then []
        else [indexArtifact g.config.output.typeDir (typed screens)] := by
    unfold typeArtifacts
    cases typed screens <;> rfl
  unfold sharedArtifacts baseArtifacts groupedArtifacts
  simp only [hbarrel, htypes]
  simp [gathered, toolArtifacts, indexArtifact]

/-! ### Whole runs -/

/-- The screens of a run that succeeds are found without repeats; they are listed or
skipped, in the order in which they were found. The modules of the listed screens, and of
no others, are written, and all that the screens share names just the listed ones. -/
theorem screens_partition {report : Report} (h : (g.run options d).outcome = .ok report) :
    ∃ (found : List FoundScreen) (shipped : List PreparedUnit) (manifest : Option String)
        (merged : Artifact) (ts us : List Attempt),
      ((discovery g.config).run d g.project).1 = .ok found ∧
      Divides (found.map (·.name)) report.screens (report.skipped.map (·.name)) ∧
      report.screens = shipped.map (·.unit.name) ∧
      (∀ screen ∈ shipped, screen.unit.kebab = g.config.naming.kebab screen.unit.name) ∧
      g.attempts options d = ts ++ us ∧
      ts.filterMap writtenModule? = shipped.map g.screenArtifact ∧
      (∀ t ∈ us, t.Succeeds) ∧
      us.map (·.artifact) = g.gathered (shipped.map g.emitted) ++ [merged] ∧
      d.readIfExists g.manifestPath = .ok manifest ∧
      merged.path = g.config.output.manifest ∧
      mergeManifest manifest
        ((shipped.map g.emitted).flatMap (screenEntries g.config.output))
        g.config.output.rootEntry = .ok merged.content := by
  obtain ⟨c, rfl⟩ := completed_of_ok h
  obtain ⟨hmanifest, found, hfound, hbecame⟩ := readAll_ok c.read_eq
  obtain ⟨hnodup, hkebabs⟩ := yields_discovery g.config _ _ _ _ hfound
  -- the steps of the run divide the prepared screens, which stand for the found ones
  obtain ⟨hshipped, hskipped, hperm⟩ := c.screens.partition
  obtain ⟨hnames, horigin⟩ := became_names hbecame
  obtain ⟨text, hmerge, hmerged⟩ := mergedManifest_ok_iff.1 c.merged_eq
  refine ⟨found, c.shipped, c.manifest, c.merged, c.ts, c.us, hfound, ?_, rfl, ?_, c.run_eq.2.2,
    c.screens.modules, fun t ht => (c.shared.succeeds ht).2, ?_, hmanifest, ?_, ?_⟩
  · rw [hnames] at hshipped hskipped hperm
    exact divides_of_perm hnodup hshipped hskipped hperm
  · intro screen hscreen
    obtain ⟨origin, hmem, hname, hkebab⟩ :=
      horigin screen (mem_screensOf.1 (c.screens.shipped_prepared screen hscreen))
    rw [hname, hkebab, hkebabs origin hmem]
  · rw [c.shared.artifacts_eq, sharedArtifacts_gathered]
  · rw [hmerged]
    rfl
  · rw [hmerged]
    exact hmerge

/-- A run that leaves a screen out: the first of two screens has lost its file. -/
theorem partition_of_pair : ∃ report,
    (indexGenerator.run {} (pairDisk.without [["c", "a.ts"]])).outcome = .ok report ∧
      report.screens = ["B"] ∧ "A" ∈ report.skipped.map (·.name) ∧
      Divides ["A", "B"] report.screens (report.skipped.map (·.name)) := by
  have hclear : Clear (pairDisk.without [["c", "a.ts"]]) (pairPlaces.map pathOf) :=
    clear_without pair_only.files pair_clear.1
  obtain ⟨c, hscreens, -⟩ := completed_of_pair [("B", "b")] hclear (by decide +kernel)
    (by decide +kernel) (by decide +kernel)
  obtain ⟨found, shipped, manifest, merged, ts, us, hfound, hdivides, -⟩ :=
    screens_partition c.run_eq.1
  have hnames : ((discovery indexGenerator.config).run (pairDisk.without [["c", "a.ts"]])
      indexGenerator.project).1.toOption.map (·.map (·.name)) = some ["A", "B"] := by decide +kernel
  rw [hfound] at hnames
  rw [show found.map (·.name) = ["A", "B"] from Option.some.inj hnames] at hdivides
  refine ⟨c.report, c.run_eq.1, hscreens, (hdivides.covers "A" (by decide)).resolve_left ?_, hdivides⟩
  rw [show c.report.screens = ["B"] from hscreens]
  decide

/-! ### Subpaths of a run -/

/-- The subpaths that a run adds to the package are compiled from modules that it has
written, and so is the package itself. -/
theorem Completed.entries_written (c : Completed g options d) {entry : ManifestEntry}
    (h : entry = g.config.output.rootEntry ∨
      entry ∈ manifestEntries g.config.output (c.shipped.map g.emitted)) :
    ∃ t ∈ c.ts ++ c.us, t.Succeeds ∧
      (entry.importTarget, entry.typesTarget) = g.config.output.distTargets t.artifact.path := by
  have hshared : ∀ a ∈ g.sharedArtifacts (c.shipped.map g.emitted),
      ∃ t ∈ c.ts ++ c.us, t.Succeeds ∧ t.artifact = a := by
    intro a ha
    have hartifact : a ∈ c.us.map (·.artifact) := by
      rw [c.shared.artifacts_eq]
      exact List.mem_append_left _ ha
    obtain ⟨t, ht, hsame⟩ := List.mem_map.1 hartifact
    exact ⟨t, List.mem_append_right _ ht, (c.shared.succeeds ht).2, hsame⟩
  -- an entry is compiled from the barrel, a screen module or a grouped module
  rcases h with rfl | h
  · have hbarrel : barrel g.config.output (c.shipped.map g.emitted) ∈
        g.sharedArtifacts (c.shipped.map g.emitted) :=
      List.mem_append_left _ (by simp [baseArtifacts])
    obtain ⟨t, ht, hsucceeds, hsame⟩ := hshared _ hbarrel
    exact ⟨t, ht, hsucceeds, by rw [hsame]; rfl⟩
  obtain ⟨source, htargets, screen, hscreen, rfl | ⟨a, ha, -, rfl⟩⟩ := entry_source h
  · obtain ⟨unit, hunit, rfl⟩ := List.mem_map.1 hscreen
    obtain ⟨t, ht, -, hwrote, hsucceeds⟩ := c.screens.shipped_spec hunit
    exact ⟨t, List.mem_append_left _ ht, hsucceeds, by rw [htargets, hwrote]; rfl⟩
  · obtain ⟨t, ht, hsucceeds, hsame⟩ := hshared a (List.mem_append_right _ ha)
    exact ⟨t, ht, hsucceeds, by rw [htargets, hsame]⟩

end Generator

end ScreenHooks.Run
