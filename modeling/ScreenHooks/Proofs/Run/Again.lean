/-
Running twice.

After a run in which no write failed, every artifact stands as its write would
leave it. If the run writes distinct files outside the core package and reads
inside it, the package is read as before; the merged manifest gives the same
package name and is merged into itself. So a second run tries the same artifacts
and changes none of them.

A new generator reads the documentation index anew, and by its path as it is
written. Where that path climbs out of a directory that only the first run has
made, the index may be found in the second run and not in the first.

* **`run_again`** — the second run, with the same generator or a new one;
* **`index_appears`** — a new generator that finds the index.
-/
import ScreenHooks.Proofs.Output.Merge
import ScreenHooks.Proofs.Output.Settled
import ScreenHooks.Proofs.Run.Rereading
import ScreenHooks.Proofs.Run.Steady

namespace ScreenHooks.Run

open Disk Output Sdk

namespace Generator

variable {g : Generator} {options : Options} {d d' : Disk}

/-! ### What is asked of the two runs -/

/-- The generator as a run leaves it: it remembers the modules that were read. -/
def later (g : Generator) (options : Options) (d : Disk) : Generator :=
  { g with project := (g.run options d).project }

/-- The path of the documentation index. -/
def indexPath (g : Generator) : Path := g.project.path g.config.core.docsIndex

/-- Whether a run writes distinct files outside the core package, while all that
it asks about lies inside, or at least where the run does not write. -/
structure Disjoint (g : Generator) (options : Options) (d : Disk) : Prop where
  distinct : ((g.attempts options d).map (·.spot)).Nodup
  outside : ∀ t ∈ g.attempts options d, ¬ d.spot g.project.root <+: t.spot
  inside : ∀ q ∈ (g.prepareAll.inquiry (g.readingScope d)).asked d,
    d.spot g.project.root <+: d.spot q.path ∨
      d.spot q.path ∉ (g.attempts options d).map (·.spot)
  index : d.spot g.project.root <+: d.spot g.indexPath

/-- Whether the manifest that is there, if any, has no numbers but integers. -/
def PlainManifest (g : Generator) (d : Disk) : Prop :=
  ∀ text value, d.readIfExists g.manifestPath = .ok (some text) → Json.read? text = some value →
    value.isIntegral = true

/-- Whether a run succeeds with the screens and the skipped ones of a report,
records no change, and makes none. -/
def Repeats (g : Generator) (options : Options) (d : Disk) (report : Report) : Prop :=
  ∃ again, (g.run options d).outcome = .ok again ∧
    again.screens = report.screens ∧ again.skipped = report.skipped ∧
    (∀ record ∈ again.artifacts, record.outcome = .unchanged ∨ record.outcome = .preserved) ∧
    (g.run options d).disk = d

/-! ### The manifest -/

/-- A merge keeps the name of the package. -/
theorem packageName_merged {existing : Option String} {members : List (String × Json)}
    {entries : List ManifestEntry} {root : ManifestEntry} {out : String}
    (h : Mergeable existing members) (hmerge : mergeManifest existing entries root = .ok out) :
    packageName (some out) = packageName existing := by
  obtain ⟨exports, hexports⟩ := exports_of_merge h.1 hmerge
  obtain ⟨out', hout', -, hread⟩ := mergeManifest_ok h hexports entries root
  obtain rfl : out = out' := Except.ok.inj (hmerge.symm.trans hout')
  -- only the exports are set
  have hname : (Table.put members "exports"
      (.object (mergeExports exports entries root))).lookup "name" = members.lookup "name" :=
    Table.lookup_put_of_ne _ _ (by decide)
  have hbefore : (existing.bind Json.read?).bind (·.get? "name") = members.lookup "name" := by
    have hmanifest := h.1
    cases existing with
    | none =>
      cases hmanifest
      rfl
    | some text =>
      rw [readManifest] at hmanifest
      split at hmanifest
      next value hvalue =>
        cases hmanifest
        rw [Option.bind_some, hvalue]
        rfl
      next => cases hmanifest
  rw [packageName, packageName, hbefore, Option.bind_some, hread, Option.bind_some, Json.get?, hname]

/-- The manifest that a run reads may be merged into. -/
theorem Completed.mergeable (c : Completed g options d) (hmanifest : g.PlainManifest d)
    (hread : d.readIfExists g.manifestPath = .ok c.manifest) :
    ∃ members text, Mergeable c.manifest members ∧
      mergeManifest c.manifest (manifestEntries g.config.output (c.shipped.map g.emitted))
        g.config.output.rootEntry = .ok text ∧ c.merged = .generated g.config.output.manifest text := by
  obtain ⟨text, hmerge, hmerged⟩ := mergedManifest_ok_iff.1 c.merged_eq
  obtain ⟨members, hmembers⟩ := mergeable_of_merge (fun existing value hexisting hvalue =>
    hmanifest existing value (hexisting ▸ hread) hvalue) hmerge
  exact ⟨members, text, hmembers, hmerge, hmerged⟩

/-! ### What is read -/

theorem readAll_ok_iff {manifest : Option String} {prepared : List Prepared} :
    (g.readAll d).1 = .ok (manifest, prepared) ↔
      d.readIfExists g.manifestPath = .ok manifest ∧
        (g.prepareAll.run d g.project).1 = .ok prepared := by
  unfold readAll
  cases d.readIfExists g.manifestPath with
  | error e => simp
  | ok found =>
    simp only []
    cases (g.prepareAll.run d g.project) with
    | mk outcome project => cases outcome <;> simp [Except.map]

/-- A run that can read the manifest remembers what preparing the screens has
read. -/
theorem run_project {manifest : Option String} (h : d.readIfExists g.manifestPath = .ok manifest) :
    (g.run options d).project = (g.prepareAll.run d g.project).2 := by
  unfold run readAll
  rw [h]

/-! ### The second run -/

/-- Whether all artifacts of a run stand as their writes leave them. -/
def AllSettled (c : Completed g options d) : Prop :=
  ∀ a ∈ g.screenArtifacts options (packageName c.manifest) c.shipped ++
      (g.sharedArtifacts (c.shipped.map g.emitted) ++ [c.merged]),
    ∃ text, c.last.readText (g.target a) = .ok text ∧ Settled (g.writer options) a text

theorem Completed.allSettled (c : Completed g options d) (hdry : options.dryRun = false)
    (hok : ∀ t ∈ c.ts ++ c.us, t.Succeeds) (hdistinct : ((c.ts ++ c.us).map (·.spot)).Nodup) :
    AllSettled c := by
  intro a ha
  rw [← (c.all_written hok).2.2] at ha
  obtain ⟨t, ht, rfl⟩ := List.mem_map.1 ha
  have hwriter : ∀ t ∈ c.ts ++ c.us, t.writer.dryRun = false := by
    intro t ht
    rw [c.attempt_writer ht]
    exact hdry
  obtain ⟨text, htext, hsettled⟩ := c.trail.settled hwriter hok hdistinct ht
  rw [(c.attempt_spot ht).1] at htext
  rw [c.attempt_writer ht] at hsettled
  exact ⟨text, htext, hsettled⟩

/-- A run that reads the merged manifest and the same screens, with whatever
memory, changes nothing. -/
theorem repeats_of_read (c : Completed g options d) (hok : ∀ t ∈ c.ts ++ c.us, t.Succeeds)
    (hsettled : AllSettled c) {members : List (String × Json)} (hmergeable : Mergeable c.manifest members)
    {p : Project}
    (hprepared : (g.prepareAll.run c.last p).1 = .ok c.prepared) :
    ({ g with project := p } : Generator).Repeats options c.last c.report := by
  obtain ⟨text, hmerge, hmerged⟩ := mergedManifest_ok_iff.1 c.merged_eq
  obtain ⟨hshipped, hskipped, -⟩ := c.all_written hok
  -- the merged manifest is what is there
  have hmanifest : c.last.readText g.manifestPath = .ok text := by
    obtain ⟨found, hfound, hsettledManifest⟩ := hsettled c.merged (by simp)
    rw [hmerged] at hfound hsettledManifest
    rw [hsettledManifest.text_eq rfl] at hfound
    exact hfound
  have hread : (({ g with project := p } : Generator).readAll c.last).1 =
      .ok (some text, c.prepared) := by
    refine readAll_ok_iff.2 ⟨?_, hprepared⟩
    show c.last.readIfExists g.manifestPath = _
    rw [readIfExists, hmanifest]
  have hagain : ({ g with project := p } : Generator).mergedManifest (some text)
      ((screensOf c.prepared).map g.emitted) = .ok c.merged := by
    rw [← hshipped]
    exact mergedManifest_ok_iff.2 ⟨text, mergeManifest_again hmergeable hmerge, hmerged⟩
  have hname := packageName_merged hmergeable hmerge
  -- so the same artifacts are tried, and each is settled
  have haccepts : ∀ a ∈ g.screenArtifacts options (packageName (some text)) (screensOf c.prepared) ++
      (g.sharedArtifacts ((screensOf c.prepared).map g.emitted) ++ [c.merged]),
      Accepts (g.writer options) (· = c.last) a ∧
        ∃ o, ((g.writer options).write a).apply c.last = (.ok o, c.last) ∧
          (o = .unchanged ∨ o = .preserved) := by
    intro a ha
    rw [hname, ← hshipped] at ha
    obtain ⟨found, hfound, hleft⟩ := hsettled a ha
    have hexists : c.last.readIfExists ((g.writer options).target a) = .ok (some found) := by
      show c.last.readIfExists (g.target a) = _
      rw [readIfExists, hfound]
    exact ⟨kept_accepts hexists hleft.changes, _, write_kept hexists hleft.changes, hleft⟩
  obtain ⟨again, ⟨hmanifestAgain, -, hmergedAgain, hagainShipped, hagainSkipped⟩, hlast, hattempts⟩ :=
    completed_of_accepts hread hagain
      (fun a ha => (haccepts a (List.mem_append_left _ ha)).1)
      (fun a ha => (haccepts a (List.mem_append_right _ ha)).1) rfl
  refine ⟨again.report, again.run_eq.1, ?_, ?_, fun record hrecord => ?_, ?_⟩
  · show again.shipped.map _ = c.shipped.map _
    rw [hagainShipped, hshipped]
  · show again.skipped = c.skipped
    rw [hagainSkipped, hskipped]
  · obtain ⟨t, ht, -, hrecord⟩ := again.record_attempt hrecord
    have hmem : t.artifact ∈ (again.ts ++ again.us).map (·.artifact) := List.mem_map_of_mem ht
    rw [(again.all_written fun t ht => (hattempts t ht).2).2.2, hmanifestAgain, hagainShipped,
      hmergedAgain] at hmem
    obtain ⟨-, o, hwrite, ho⟩ := haccepts _ hmem
    have houtcome : t.outcome = .ok o := by
      rw [again.trail.outcome_eq ht, again.attempt_writer ht, (hattempts t ht).1]
      exact congrArg Prod.fst hwrite
    rw [Except.ok.inj (hrecord.symm.trans houtcome)]
    exact ho
  · rw [again.run_eq.2.1, hlast]

/-- An index that the same path reads, or does not read, publishes the same. -/
theorem load_eq {p : Path} (kind : Nat)
    (h : ∀ text, d'.readText p = .ok text ↔ d.readText p = .ok text) :
    Screen.AllowList.load d' p kind = .load d p kind := by
  unfold Screen.AllowList.load
  cases hread : d.readText p with
  | ok text => rw [(h text).2 hread]
  | error e =>
    cases hread' : d'.readText p with
    | ok text =>
      rw [h, hread] at hread'
      cases hread'
    | error e' => rfl

/-- A generator that is opened on a grown disk is the one of before, but for what
the index publishes there. -/
theorem open?_grown {places : List Place} (hgrown : Grown places d d') {home : Option String}
    {config : Config} (hopen : open? d home config = .ok g) :
    open? d' home config =
      .ok { g with allow := .load d' g.indexPath g.config.core.docsInterfaceKind } := by
  obtain ⟨root, hroot, rfl⟩ := open?_ok hopen
  have hcanonical : d'.canonical (expandHome home config.core.root) = .ok root := by
    unfold canonical at hroot ⊢
    cases hlocate : d.locate (expandHome home config.core.root) with
    | error e =>
      rw [hlocate] at hroot
      cases hroot
    | ok found =>
      obtain ⟨other, hother⟩ := hgrown.locate_stays hlocate
      rw [hlocate] at hroot
      rw [hother]
      exact hroot
  unfold open? Project.open?
  rw [hcanonical]
  rfl

/-- A second run, on the file tree that a run without failed writes has left,
succeeds with the same screens and the same skipped ones, and changes nothing. It
is so with the generator of the first run; and with a new one, if the first run
has made no directory on the way to a documentation index whose path climbs. -/
theorem run_again {home : Option String} {config : Config} {report : Report} (htree : IsTree d)
    (hopen : open? d home config = .ok g) (hdry : options.dryRun = false)
    (hok : (g.run options d).outcome = .ok report)
    (hwritten : ∀ t ∈ g.attempts options d, t.Succeeds) (hdisjoint : g.Disjoint options d)
    (hmanifest : g.PlainManifest d) :
    (g.later options d).Repeats options (g.run options d).disk report ∧
      ((".." ∈ g.indexPath.segments → ∀ q ∈ d.route g.indexPath, d.at? q = none →
          (g.run options d).disk.at? q ≠ some .directory) →
        ∃ fresh, open? (g.run options d).disk home config = .ok fresh ∧
          fresh.Repeats options (g.run options d).disk report) := by
  obtain ⟨c, rfl⟩ := completed_of_ok hok
  obtain ⟨hdistinct, houtside, hinside, hindex⟩ := hdisjoint
  rw [c.run_eq.2.2] at hwritten hdistinct houtside hinside
  rw [c.run_eq.2.1]
  have hgrown := c.trail.grown
  -- what lies inside the core package is no target
  have hkept : ∀ {q : Place}, d.spot g.project.root <+: q → q ∉ (c.ts ++ c.us).map (·.spot) := by
    intro q hq hmem
    obtain ⟨t, ht, rfl⟩ := List.mem_map.1 hmem
    exact houtside t ht hq
  have hspots : ∀ q ∈ (g.prepareAll.inquiry (g.readingScope d)).asked d,
      d.spot q.path ∉ (c.ts ++ c.us).map (·.spot) :=
    fun q hq => (hinside q hq).elim hkept id
  obtain ⟨hread, hprepared⟩ := readAll_ok_iff.1 c.read_eq
  obtain ⟨members, -, hmergeable, -⟩ := c.mergeable hmanifest hread
  have hrepeats : ∀ p : Project, Inquiry.Sound c.last p → p.root = g.project.root →
      ({ g with project := p } : Generator).Repeats options c.last c.report := by
    intro p hp hroot
    refine repeats_of_read c hwritten (c.allSettled hdry hwritten hdistinct) hmergeable ?_
    rw [← hprepared]
    exact prepareAll_again hgrown htree hspots (sound_of_open hopen d) hp hroot
  obtain ⟨hnew, hallow⟩ : g.project.known = [] ∧
      g.allow = .load d g.indexPath g.config.core.docsInterfaceKind := by
    obtain ⟨root, -, rfl⟩ := open?_ok hopen
    exact ⟨rfl, rfl⟩
  refine ⟨hrepeats _ ?_ ?_, fun hclimb => ⟨g, ?_, ?_⟩⟩
  · rw [run_project hread]
    exact sound_again hgrown htree hspots hnew
  · rw [run_project hread]
    exact (Inquiry.answer_on (sound_of_open hopen d)).2.2
  · -- the new generator finds the same index
    have hsame : ∀ text, c.last.readText g.indexPath = .ok text ↔
        d.readText g.indexPath = .ok text := by
      intro text
      rw [readText_iff_hasFile, readText_iff_hasFile]
      by_cases hup : ".." ∈ g.indexPath.segments
      · exact hgrown.file_iff (hkept hindex) (hclimb hup)
      · exact hgrown.file_iff_of_downhill htree (Path.downhill_of_no_climb hup) (hkept hindex)
    rw [open?_grown hgrown hopen, load_eq _ hsame, ← hallow]
  · exact hrepeats g.project (sound_of_open hopen c.last) rfl

/-! ### An index that appears -/

/-- A core package with one screen. Its declaration file exports a name from a file
that is no text, and the documentation index publishes that name. -/
def fragileDisk : Disk where
  entries := [(["c"], .directory),
    (["c", "all.ts"], .file (.text "export class A \x7b\x7d")),
    (["c", "a.ts"], .file (.text "export \x7b X \x7d from './b'")),
    (["c", "b.ts"], .file (.binary [255])),
    (["c", "docs.json"], .file (.text "\x7b\"kind\":256,\"name\":\"X\"\x7d"))]

/-- A generator for it that has found no index. Its paths may climb: that of the
manifest goes through a directory of the package that is not there, and so does
that of the index. -/
def fragileGenerator (climbs : Bool) : Generator where
  config :=
    { core :=
        { root := ⟨"/c"⟩
          screensBarrel := ⟨"all.ts"⟩
          implementationPattern := "\x7bkebab\x7d.ts"
          declarationPattern := "\x7bkebab\x7d.ts"
          docsIndex := if climbs then ⟨"new/../docs.json"⟩ else ⟨"index.json"⟩ }
      output :=
        { root := ⟨"/o"⟩
          manifest := if climbs then ⟨"../c/new/../../o/package.json"⟩ else ⟨"package.json"⟩ } }
  home := none
  project := { root := ⟨"/c"⟩ }
  allow := .empty

/-- The paths of all that is written for it. -/
def fragilePaths (climbs : Bool) : List Path :=
  [⟨"src/screens/a.tsx"⟩, ⟨"src/hooks/context-hooks.ts"⟩, ⟨"src/hooks/utility.ts"⟩,
    ⟨"src/hooks/common.ts"⟩, ⟨"src/index.ts"⟩, ⟨"src/exports/screens/a.ts"⟩,
    ⟨"src/exports/screens/index.ts"⟩, ⟨"src/exports/index.ts"⟩,
    (fragileGenerator climbs).config.output.manifest]

/-- The places of all that is written for it. -/
def fragilePlaces : List Place :=
  [["o", "src", "screens", "a.tsx"], ["o", "src", "hooks", "context-hooks.ts"],
    ["o", "src", "hooks", "utility.ts"], ["o", "src", "hooks", "common.ts"],
    ["o", "src", "index.ts"], ["o", "src", "exports", "screens", "a.ts"],
    ["o", "src", "exports", "screens", "index.ts"], ["o", "src", "exports", "index.ts"],
    ["o", "package.json"]]

theorem fragile_tree : IsTree fragileDisk := isTree_of_entries rfl (by decide)

theorem fragile_places (climbs : Bool) :
    ((fragilePaths climbs).map fun path => fragileDisk.spot ((⟨"/o"⟩ : Path).join path)) =
      fragilePlaces := by
  cases climbs <;> decide +kernel

theorem fragile_clear (climbs : Bool) :
    Clear fragileDisk ((fragilePaths climbs).map (⟨"/o"⟩ : Path).join) := by
  cases climbs <;> exact clear_of_forall (by decide +kernel)

/-- Whether there was no manifest and one screen `A`, which exports no types. -/
def findsScreen (g : Generator) : Except Failure (Option String × List Prepared) → Bool
  | .ok (none, [.ok screen]) =>
    screen.unit.name = "A" ∧ screen.unit.kebab = "a" ∧ (g.hookModule screen).typeExports = []
  | _ => false

theorem of_findsScreen {g : Generator} {found : Except Failure (Option String × List Prepared)}
    (h : findsScreen g found = true) :
    ∃ screen, found = .ok (none, [.ok screen]) ∧ screen.unit.name = "A" ∧
      screen.unit.kebab = "a" ∧ (g.hookModule screen).typeExports = [] := by
  unfold findsScreen at h
  split at h
  next screen => exact ⟨screen, rfl, of_decide_eq_true h⟩
  next => cases h

/-- What is written for a screen without types has these paths. -/
theorem fragile_artifacts {climbs : Bool} {screen : PreparedUnit} (hkebab : screen.unit.kebab = "a")
    (htypes : ((fragileGenerator climbs).hookModule screen).typeExports = [])
    (package : String) {merged : Artifact}
    (hmerged : merged.path = (fragileGenerator climbs).config.output.manifest) :
    ((fragileGenerator climbs).screenArtifacts {} package [screen] ++
      ((fragileGenerator climbs).sharedArtifacts ([screen].map (fragileGenerator climbs).emitted) ++
        [merged])).map (·.path) = fragilePaths climbs := by
  have htypeless : typeArtifacts (fragileGenerator climbs).config.output
      ([screen].map (fragileGenerator climbs).emitted) = [] := by
    have hnone : ((fragileGenerator climbs).emitted screen).types = [] := htypes
    rw [typeArtifacts, List.map_singleton, typed, List.filter_cons, hnone]
    rfl
  have hscreen : ((fragileGenerator climbs).screenArtifact screen).path =
      ⟨"src/screens/a.tsx"⟩ := by
    show (fragileGenerator climbs).config.output.screenModule screen.unit.kebab = _
    rw [hkebab]
    cases climbs <;> decide
  have hnamespace : (namespaceArtifact (fragileGenerator climbs).config.output
      ((fragileGenerator climbs).emitted screen)).path = ⟨"src/exports/screens/a.ts"⟩ := by
    show (fragileGenerator climbs).config.output.namespaceModule screen.unit.kebab = _
    rw [hkebab]
    cases climbs <;> decide
  -- the other paths do not depend on the screen
  have hbase : ((fragileGenerator climbs).baseArtifacts
      ([screen].map (fragileGenerator climbs).emitted)).map (·.path) =
      [⟨"src/hooks/context-hooks.ts"⟩, ⟨"src/hooks/utility.ts"⟩, ⟨"src/hooks/common.ts"⟩,
        ⟨"src/index.ts"⟩] := by
    show [(fragileGenerator climbs).config.output.hooksModule Hook.contextHooksModule,
      (fragileGenerator climbs).config.output.hooksModule Hook.utilityModule,
      (fragileGenerator climbs).config.output.hooksModule Hook.commonModule,
      (fragileGenerator climbs).config.output.barrel] = _
    cases climbs <;> decide
  have hindex : (fragileGenerator climbs).config.output.namespaceDir.child "index.ts" =
      ⟨"src/exports/screens/index.ts"⟩ := by
    cases climbs <;> decide
  have hexports : (fragileGenerator climbs).config.output.exportsDir.child "index.ts" =
      ⟨"src/exports/index.ts"⟩ := by
    cases climbs <;> decide
  rw [sharedArtifacts, groupedArtifacts, htypeless, List.append_nil]
  simp only [List.map_append, hbase]
  show [((fragileGenerator climbs).screenArtifact screen).path] ++ (([_, _, _, _] ++
    ([(namespaceArtifact (fragileGenerator climbs).config.output
      ((fragileGenerator climbs).emitted screen)).path] ++
      [(fragileGenerator climbs).config.output.namespaceDir.child "index.ts"] ++
      [(fragileGenerator climbs).config.output.exportsDir.child "index.ts"])) ++ [merged.path]) = _
  rw [hscreen, hnamespace, hindex, hexports, hmerged]
  rfl

/-- A run for it succeeds with the screen, and writes to these places. -/
theorem fragile_completed (climbs : Bool) :
    ∃ c : Completed (fragileGenerator climbs) {} fragileDisk, c.report.screens = ["A"] ∧
      (∀ t ∈ c.ts ++ c.us, t.Succeeds) ∧ (c.ts ++ c.us).map (·.spot) = fragilePlaces ∧
      ∃ t ∈ c.ts ++ c.us, t.target = (fragileGenerator climbs).manifestPath := by
  have hfound : findsScreen (fragileGenerator climbs)
      ((fragileGenerator climbs).readAll fragileDisk).1 = true := by
    cases climbs <;> decide +kernel
  obtain ⟨screen, hread, hname, hkebab, htypes⟩ := of_findsScreen hfound
  obtain ⟨merged, hmerged⟩ : ∃ merged, (fragileGenerator climbs).mergedManifest none
      ([screen].map (fragileGenerator climbs).emitted) = .ok merged :=
    ⟨_, mergedManifest_ok_iff.2 ⟨_, rfl, rfl⟩⟩
  have hroot : (fragileGenerator climbs).outputRoot = ⟨"/o"⟩ := by
    cases climbs <;> decide
  have hmergedPath : merged.path = (fragileGenerator climbs).config.output.manifest := by
    obtain ⟨text, -, rfl⟩ := mergedManifest_ok_iff.1 hmerged
    rfl
  have hartifacts := fragile_artifacts hkebab htypes (packageName none) hmergedPath
  -- nothing stands yet where the run writes
  have hlegible : ∀ p ∈ (fragilePaths climbs).map (⟨"/o"⟩ : Path).join,
      ¬ Illegible fragileDisk (fragileDisk.spot p) := by
    rintro p hp ⟨bytes, hat⟩
    have hplace : fragileDisk.spot p ∈ fragilePlaces := by
      obtain ⟨path, hpath, rfl⟩ := List.mem_map.1 hp
      rw [← fragile_places climbs]
      exact List.mem_map_of_mem hpath
    have hnone : ∀ place ∈ fragilePlaces, fragileDisk.at? place = none := by decide
    rw [hnone _ hplace] at hat
    cases hat
  obtain ⟨c, -, hshipped, hsucceeds, hwritten⟩ := completed_of_clear (fragile_clear climbs) hlegible
    hread hmerged fun a ha => by
      rw [Generator.target, hroot]
      refine List.mem_map_of_mem ?_
      rw [← hartifacts]
      exact List.mem_map_of_mem ha
  refine ⟨c, ?_, hsucceeds, ?_, ?_⟩
  · show c.shipped.map _ = _
    rw [hshipped]
    exact congrArg (fun name => [name]) hname
  · have hspot : ∀ t ∈ c.ts ++ c.us,
        t.spot = fragileDisk.spot ((⟨"/o"⟩ : Path).join t.artifact.path) := by
      intro t ht
      rw [(c.attempt_spot ht).2, Generator.target, hroot]
    have hpaths : ((c.ts ++ c.us).map (·.artifact)).map (·.path) = fragilePaths climbs := by
      rw [hwritten]
      exact hartifacts
    rw [← fragile_places climbs, ← hpaths, List.map_map, List.map_map]
    exact List.map_congr_left hspot
  · have hmem : merged ∈ (c.ts ++ c.us).map (·.artifact) := by
      rw [hwritten]
      simp
    obtain ⟨t, ht, hsame⟩ := List.mem_map.1 hmem
    refine ⟨t, ht, ?_⟩
    rw [(c.attempt_spot ht).1, hsame, Generator.target, hmergedPath]
    rfl

theorem fragile_open (climbs : Bool) :
    open? fragileDisk none (fragileGenerator climbs).config = .ok (fragileGenerator climbs) := by
  cases climbs <;> rfl

theorem fragile_disjoint (climbs : Bool) :
    (fragileGenerator climbs).Disjoint {} fragileDisk ∧
      (fragileGenerator climbs).PlainManifest fragileDisk := by
  obtain ⟨c, -, -, hspots, -⟩ := fragile_completed climbs
  have hnone : fragileDisk.readIfExists (fragileGenerator climbs).manifestPath = .ok none := by
    cases climbs <;> rfl
  have hcore : fragileDisk.spot (fragileGenerator climbs).project.root = ["c"] := by
    cases climbs <;> decide
  -- nothing that is read lies in the output tree, nothing that is written in the core
  refine ⟨⟨?_, fun t ht => ?_, fun q hq => .inl ?_, ?_⟩, fun text value hread => ?_⟩
  · rw [c.run_eq.2.2, hspots]
    decide
  · rw [c.run_eq.2.2] at ht
    have hplace : t.spot ∈ fragilePlaces := by
      rw [← hspots]
      exact List.mem_map_of_mem ht
    have hout : ∀ place ∈ fragilePlaces, ¬ ["c"] <+: place := by decide
    rw [hcore]
    exact hout _ hplace
  · have hin : ∀ q ∈ ((fragileGenerator climbs).prepareAll.inquiry
        ((fragileGenerator climbs).readingScope fragileDisk)).asked fragileDisk,
        ["c"] <+: fragileDisk.spot q.path := by
      cases climbs <;> decide +kernel
    rw [hcore]
    exact hin q hq
  · cases climbs <;> decide +kernel
  · rw [hnone] at hread
    cases hread

theorem run_again_fragile : ∃ report,
    ((fragileGenerator false).run {} fragileDisk).outcome = .ok report ∧
    report.screens = ["A"] ∧
    ((fragileGenerator false).later {} fragileDisk).Repeats {}
      ((fragileGenerator false).run {} fragileDisk).disk report ∧
    ∃ fresh, open? ((fragileGenerator false).run {} fragileDisk).disk none
        (fragileGenerator false).config = .ok fresh ∧
      fresh.Repeats {} ((fragileGenerator false).run {} fragileDisk).disk report := by
  obtain ⟨c, hscreens, hsucceeds, -⟩ := fragile_completed false
  have hwritten : ∀ t ∈ (fragileGenerator false).attempts {} fragileDisk, t.Succeeds := by
    rw [c.run_eq.2.2]
    exact hsucceeds
  have hlevel : ".." ∉ (fragileGenerator false).indexPath.segments := by decide
  obtain ⟨hsame, hfresh⟩ := run_again fragile_tree (fragile_open false) rfl c.run_eq.1 hwritten
    (fragile_disjoint false).1 (fragile_disjoint false).2
  exact ⟨c.report, c.run_eq.1, hscreens, hsame, hfresh fun hup => absurd hup hlevel⟩

/-- The text of the index. -/
def fragileIndex : String := "\x7b\"kind\":256,\"name\":\"X\"\x7d"

/-- The generator that has found the index. -/
def informedGenerator : Generator :=
  { fragileGenerator true with allow := .ofText fragileIndex Screen.defaultInterfaceKind }

/-- Whether no screen could be prepared. -/
def preparesNone : Except Failure (List Prepared) → Bool
  | .ok prepared => (screensOf prepared).isEmpty
  | .error _ => true

/-- Once the way to the manifest is made, the index is found. -/
theorem index_found (c : Completed (fragileGenerator true) {} fragileDisk)
    (hsucceeds : ∀ t ∈ c.ts ++ c.us, t.Succeeds) (hspots : (c.ts ++ c.us).map (·.spot) = fragilePlaces)
    (hmanifest : ∃ t ∈ c.ts ++ c.us, t.target = (fragileGenerator true).manifestPath) :
    open? c.last none (fragileGenerator true).config = .ok informedGenerator := by
  have hgrown := c.trail.grown
  rw [hspots] at hgrown
  have hwriter : ∀ t ∈ c.ts ++ c.us, t.writer.dryRun = false := by
    intro t ht
    rw [c.attempt_writer ht]
    rfl
  -- the manifest was written, so the way to it consists of directories
  have hway : ∀ q ∈ fragileDisk.route (fragileGenerator true).manifestPath,
      c.last.at? q = some .directory := by
    obtain ⟨t, ht, htarget⟩ := hmanifest
    have hfile := c.trail.isFile_after hwriter hsucceeds ht
    rw [htarget] at hfile
    intro q hq
    rw [← route_congr hgrown.here_eq] at hq
    exact (isFile_iff.1 hfile).2.1 q hq
  have hread : c.last.readText (fragileGenerator true).indexPath = .ok fragileIndex := by
    refine readText_iff_hasFile.2 ⟨⟨by decide +kernel, fun q hq => ?_⟩, ?_⟩
    · rw [route_congr hgrown.here_eq] at hq
      have hsub : ∀ q ∈ fragileDisk.route (fragileGenerator true).indexPath,
          q ∈ fragileDisk.route (fragileGenerator true).manifestPath := by
        decide +kernel
      exact hway q (hsub q hq)
    · have hspot : fragileDisk.spot (fragileGenerator true).indexPath = ["c", "docs.json"] := by
        decide +kernel
      rw [spot_congr hgrown.here_eq, hspot]
      exact (hgrown.at_file_iff (by decide)).2 rfl
  rw [open?_grown hgrown (fragile_open true), Screen.AllowList.load, hread]
  rfl

/-- With the index, the screen cannot be prepared. -/
theorem informed_lost {after : Disk} (hgrown : Grown fragilePlaces fragileDisk after) {report : Report}
    (hok : (informedGenerator.run {} after).outcome = .ok report) : report.screens = [] := by
  obtain ⟨c, rfl⟩ := completed_of_ok hok
  have hspots : ∀ q ∈ (informedGenerator.prepareAll.inquiry
      (informedGenerator.readingScope fragileDisk)).asked fragileDisk,
      fragileDisk.spot q.path ∉ fragilePlaces := by
    decide +kernel
  have hsound : ∀ other : Disk, Inquiry.Sound other informedGenerator.project := by
    intro other key found h
    cases h
  have hprepared := (readAll_ok_iff.1 c.read_eq).2
  have hnone : preparesNone (informedGenerator.prepareAll.run fragileDisk
      informedGenerator.project).1 = true := by
    decide +kernel
  -- what was written in the run before is not read
  have hsame : (informedGenerator.prepareAll.run after informedGenerator.project).1 =
      (informedGenerator.prepareAll.run fragileDisk informedGenerator.project).1 :=
    prepareAll_again hgrown fragile_tree hspots (hsound _) (hsound _) rfl
  rw [← hsame, hprepared] at hnone
  have hempty : screensOf c.prepared = [] := List.isEmpty_iff.1 hnone
  have hshipped : c.shipped = [] := by
    apply List.eq_nil_iff_forall_not_mem.2
    intro screen hscreen
    have hmem := c.screens.shipped_prepared screen hscreen
    rw [hempty] at hmem
    cases hmem
  show c.shipped.map _ = []
  rw [hshipped]
  rfl

/-- A run whose manifest lies beyond a new directory of the core package lets a new
generator find the index, whose path climbs out of that directory; and with the
name that the index publishes, the second run loses the screen. -/
theorem index_appears : ∃ report fresh,
    IsTree fragileDisk ∧
    open? fragileDisk none (fragileGenerator true).config = .ok (fragileGenerator true) ∧
    ((fragileGenerator true).run {} fragileDisk).outcome = .ok report ∧
    (∀ t ∈ (fragileGenerator true).attempts {} fragileDisk, t.Succeeds) ∧
    (fragileGenerator true).Disjoint {} fragileDisk ∧
    (fragileGenerator true).PlainManifest fragileDisk ∧
    open? ((fragileGenerator true).run {} fragileDisk).disk none (fragileGenerator true).config =
      .ok fresh ∧
    ¬ fresh.Repeats {} ((fragileGenerator true).run {} fragileDisk).disk report := by
  obtain ⟨c, hscreens, hsucceeds, hspots, hmanifest⟩ := fragile_completed true
  have hwritten : ∀ t ∈ (fragileGenerator true).attempts {} fragileDisk, t.Succeeds := by
    rw [c.run_eq.2.2]
    exact hsucceeds
  have hfresh := index_found c hsucceeds hspots hmanifest
  rw [c.run_eq.2.1]
  refine ⟨c.report, informedGenerator, fragile_tree, fragile_open true, c.run_eq.1, hwritten,
    (fragile_disjoint true).1, (fragile_disjoint true).2, hfresh, ?_⟩
  rintro ⟨again, hagain, hsame, -⟩
  have hgrown := c.trail.grown
  rw [hspots] at hgrown
  rw [informed_lost hgrown hagain, hscreens] at hsame
  cases hsame

end Generator

end ScreenHooks.Run
