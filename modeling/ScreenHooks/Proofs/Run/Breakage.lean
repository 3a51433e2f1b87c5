/-
A source file that becomes unreadable.

The file of one screen is overwritten by bytes that are no text. What is read of
the package changes only where the file itself is read, and then it fails. If
only the preparation of the screen reads it, the screen is skipped and the rest
of the run goes on as before; if finding the screens reads it, the run ends.

* **`others_kept_iff`** — when a broken source costs its own screen only;
* **`run_lost`** — a broken source that costs the whole run.
-/
import ScreenHooks.Proofs.Disk.Editing
import ScreenHooks.Proofs.Run.Collisions
import ScreenHooks.Proofs.Run.Preparing
import ScreenHooks.Proofs.Sdk.Listing

namespace ScreenHooks.Run

open Disk Output Sdk

/-! ### One broken file -/

section Broken

variable {d : Disk} {place : Place} {text : String} (bytes : List UInt8)
  (htext : d.at? place = some (.file (.text text)))

/-- A disk on which a file is no text any more. -/
def broken (d : Disk) (place : Place) (bytes : List UInt8) : Disk :=
  d.put place (.file (.binary bytes))

theorem broken_here : (broken d place bytes).here = d.here := rfl

theorem broken_elsewhere {q : Place} (hq : q ≠ place) : (broken d place bytes).at? q = d.at? q :=
  overwritten_elsewhere hq

include htext

theorem broken_kind (q : Place) : SameKind (d.at? q) ((broken d place bytes).at? q) :=
  overwritten_kind htext q

theorem broken_isFile (p : Path) : (broken d place bytes).isFile p = d.isFile p :=
  overwritten_isFile htext p

theorem broken_files : (broken d place bytes).files.length = d.files.length :=
  overwritten_files htext

theorem broken_readIfExists {p : Path} (hp : d.spot p ≠ place) :
    (broken d place bytes).readIfExists p = d.readIfExists p := overwritten_readIfExists htext hp

theorem broken_readText {p : Path} (hp : d.spot p ≠ place) :
    (broken d place bytes).readText p = d.readText p := overwritten_readText htext hp

theorem broken_canonical (p : Path) : (broken d place bytes).canonical p = d.canonical p :=
  overwritten_canonical htext p

/-- A module at another place is read as before. -/
theorem broken_module {key : Path} (hkey : ¬ (d.isFile key = true ∧ d.spot key = place)) :
    readModule (broken d place bytes) key = readModule d key := readModule_overwritten htext hkey

/-- The module at the place itself cannot be read any more. -/
theorem broken_unreadable {key : Path} (hfile : d.isFile key = true) (hspot : d.spot key = place) :
    ∃ e, readModule (broken d place bytes) key = .error e := by
  obtain ⟨hvalid, hdirs, -⟩ := isFile_iff.1 hfile
  have hreach : (broken d place bytes).Reaches key := overwritten_reaches htext ⟨hvalid, hdirs⟩
  have hat : (broken d place bytes).at? place = some (.file (.binary bytes)) :=
    overwritten_at htext
  have hread := readText_of_reaches hreach
  rw [spot_congr (broken_here bytes), hspot, hat] at hread
  unfold readModule
  rw [broken_isFile bytes htext, hfile, hread]
  exact ⟨_, rfl⟩

/-- A disk that was clear for some paths still is. -/
theorem clear_broken {paths : List Path} (hclear : Clear d paths) :
    Clear (broken d place bytes) paths := by
  have hdirectory : ∀ {q : Place}, (broken d place bytes).at? q = some .directory →
      d.at? q = some .directory := by
    intro q hq
    have hkind := broken_kind bytes htext q
    rw [hq] at hkind
    exact hkind.directory_eq
  refine ⟨fun p hp => ?_, hclear.valid, hclear.named, fun p hp c hc contents hat => ?_,
    fun p hp hat => hclear.free p hp (hdirectory hat), hclear.apart⟩
  · have hkind := (broken_kind bytes htext (d.start p)).symm
    rw [hclear.start p hp] at hkind
    exact hkind.directory_eq
  · by_cases hplace : c = place
    · rw [hplace] at hc
      exact hclear.route p hp place hc _ htext
    · rw [broken_elsewhere bytes hplace] at hat
      exact hclear.route p hp c hc contents hat

/-! ### Inquiries -/

/-- Whether an inquiry reads the file at a place. -/
def Reads {α : Type} (d : Disk) (place : Place) (x : Inquiry α) : Prop :=
  ∃ key, .module key ∈ x.asked d ∧ d.isFile key = true ∧ d.spot key = place

/-- The two disks differ on a question only if it reads the file. -/
theorem broken_same (q : Question)
    (hq : ∀ key, q = .module key → ¬ (d.isFile key = true ∧ d.spot key = place)) :
    q.Same d (broken d place bytes) := by
  cases q with
  | file path => exact broken_isFile bytes htext path
  | module key => exact broken_module bytes htext (hq key rfl)

/-- What does not read the file ends as before. -/
theorem broken_on {α : Type} {x : Inquiry α} (h : ¬ Reads d place x) :
    x.on (broken d place bytes) = x.on d := by
  refine (Inquiry.on_congr fun q hq => broken_same bytes htext q ?_).1
  rintro key rfl ⟨hfile, hspot⟩
  exact h ⟨key, hq, hfile, hspot⟩

/-- What reads the file and gives up where a module cannot be read ends with an
error. -/
theorem broken_error {α : Type} {x : Inquiry (Except Failure α)} (hx : x.Strict)
    (h : Reads d place x) : ∃ e, x.on (broken d place bytes) = .error e := by
  obtain ⟨key, hkey, hfile, hspot⟩ := h
  have hreads : ∃ found, readModule d key = .ok found := by
    obtain ⟨hvalid, hdirs, -⟩ := isFile_iff.1 hfile
    have hread : d.readText key = .ok text := by
      refine readText_ok_iff.2 ⟨hvalid, hdirs, ?_⟩
      rw [hspot, htext]
    unfold readModule
    rw [hfile, hread]
    exact ⟨_, rfl⟩
  -- the first question on which the disks differ is about the file
  obtain ⟨q, hq, -, hdiffer⟩ : ∃ q ∈ x.asked (broken d place bytes), q ∈ x.asked d ∧
      ¬ q.Same d (broken d place bytes) := by
    refine Inquiry.differ_asked ⟨_, hkey, fun hsame => ?_⟩
    obtain ⟨found, hfound⟩ := hreads
    obtain ⟨e, he⟩ := broken_unreadable bytes htext hfile hspot
    have hboth := hsame.symm.trans he
    rw [hfound] at hboth
    cases hboth
  have habout : ∃ other, q = .module other ∧ d.isFile other = true ∧ d.spot other = place := by
    by_contra hnone
    refine hdiffer (broken_same bytes htext q ?_)
    rintro other rfl hother
    exact hnone ⟨other, rfl, hother⟩
  obtain ⟨other, rfl, hother⟩ := habout
  obtain ⟨e, he⟩ := broken_unreadable bytes htext hother.1 hother.2
  exact hx.error ⟨other, e, hq, he⟩

end Broken

/-! ### Screens -/

theorem strict_discovery (config : Config) : (discovery config).Strict := by
  intro scope
  rw [discovery_inquiry]
  exact strict_discover config.naming (scope.path config.core.screensBarrel) scope

/-- A screen whose files cannot both be read is not prepared. -/
theorem prepareOn_error {core : CoreConfig} {allow : Screen.AllowList} {scope : Scope} {d : Disk}
    {found : FoundScreen} {key : Path} {e : Failure}
    (hkey : key = (implementationOf core scope found).normalize ∨
      key = (declarationsOf core scope found).normalize) (he : readModule d key = .error e) :
    ∃ e, prepareOn core allow scope d found = .error e := by
  unfold prepareOn
  rcases hkey with hkey | hkey <;> rw [hkey] at he
  · have hcompanion : companionOn d found.name .implementation (implementationOf core scope found) =
        .error (.parse (implementationOf core scope found) e.fullMessage) := by
      unfold companionOn
      rw [he]
    rw [hcompanion]
    exact ⟨_, rfl⟩
  · have hcompanion : companionOn d found.name .declaration (declarationsOf core scope found) =
        .error (.parse (declarationsOf core scope found) e.fullMessage) := by
      unfold companionOn
      rw [he]
    rw [hcompanion]
    cases companionOn d found.name .implementation (implementationOf core scope found) with
    | error e => exact ⟨e, rfl⟩
    | ok implementation => exact ⟨_, rfl⟩

/-- A prepared screen has the names of the screen that was found. -/
theorem preparedOn_unit {config : Config} {allow : Screen.AllowList} {scope : Scope} {d : Disk}
    {found : FoundScreen} {screen : PreparedUnit}
    (h : preparedOn config allow scope d found = .ok screen) :
    screen.unit.name = found.name ∧ screen.unit.kebab = found.kebab := by
  obtain ⟨implementation, -, hunit⟩ := preparedOn_ok h
  rw [hunit]
  exact ⟨rfl, rfl⟩

theorem preparedOn_name {config : Config} {allow : Screen.AllowList} {scope : Scope} {d : Disk}
    {found : FoundScreen} {screen : PreparedUnit}
    (h : preparedOn config allow scope d found = .ok screen) : screen.unit.name = found.name :=
  (preparedOn_unit h).1

/-- The kebab name of a screen that is found follows from its name. -/
theorem discover_kebab {naming : Naming} {barrel : Path} {d : Disk} {scope : Scope}
    {found : List FoundScreen} (h : ((discover naming barrel).inquiry scope).on d = .ok found)
    {screen : FoundScreen} (hscreen : screen ∈ found) : screen.kebab = naming.kebab screen.name :=
  ((mem_discover_iff h).1 hscreen).2.2.2

namespace Generator

variable {g : Generator} {options : Options} {d : Disk}

/-! ### Fewer screens -/

/-- With fewer screens nothing is written to other paths. -/
theorem paths_among (options : Options) (package : String) {fewer screens : List PreparedUnit}
    (hsub : ∀ screen ∈ fewer, screen ∈ screens) :
    PathsAmong (g.screenArtifacts options package fewer) (g.screenArtifacts options package screens) ∧
      PathsAmong (g.sharedArtifacts (fewer.map g.emitted))
        (g.sharedArtifacts (screens.map g.emitted)) := by
  constructor
  · intro a ha
    obtain ⟨screen, hscreen, ha⟩ := List.mem_flatMap.1 ha
    exact ⟨a, List.mem_flatMap.2 ⟨screen, hsub screen hscreen, ha⟩, rfl⟩
  · have hemitted : ∀ screen ∈ fewer.map g.emitted, screen ∈ screens.map g.emitted := by
      intro emitted hemitted
      obtain ⟨screen, hscreen, rfl⟩ := List.mem_map.1 hemitted
      exact List.mem_map_of_mem (hsub screen hscreen)
    -- the base artifacts have fixed paths
    have hbase : PathsAmong (g.baseArtifacts (fewer.map g.emitted))
        (g.baseArtifacts (screens.map g.emitted)) := by
      have hbarrel : PathsAmong [barrel g.config.output (fewer.map g.emitted)]
          [barrel g.config.output (screens.map g.emitted)] := .singleton rfl
      exact (PathsAmong.refl [_, _, _]).append hbarrel
    rw [sharedArtifacts_eq, sharedArtifacts_eq]
    exact hbase.append ((PathsAmong.map g.namespaceOf hsub).append (followers_among hemitted))

/-! ### The run on the broken disk -/

/-- The two files of a screen that is found. -/
def sources (g : Generator) (d : Disk) (screen : FoundScreen) : List Path :=
  [(implementationOf g.config.core (g.readingScope d) screen).normalize,
    (declarationsOf g.config.core (g.readingScope d) screen).normalize]

/-- Whether a place holds a text file of a screen that no other screen is prepared
from and that is not the documentation index. -/
structure OwnSource (g : Generator) (d : Disk) (screen : FoundScreen) (place : Place) : Prop where
  text : ∃ text, d.at? place = some (.file (.text text))
  source : ∃ key ∈ g.sources d screen, d.isFile key = true ∧ d.spot key = place
  others : ∀ found, g.discovered d = .ok found → ∀ other ∈ found, other.name ≠ screen.name →
    ¬ Reads d place ((prepare g.config.core g.allow other).run.inquiry (g.readingScope d))
  index : d.spot (g.project.path g.config.core.docsIndex) ≠ place

/-- Whether a run on another disk loses a screen and keeps the others: it
succeeds, does not report the screen, and writes the modules of all others. -/
def OnlyLoses (g : Generator) (options : Options) (d other : Disk) (name : String) : Prop :=
  ∃ report, (g.run options other).outcome = .ok report ∧
    report.screens = (g.shipped options other).map (·.unit.name) ∧ name ∉ report.screens ∧
    ∀ screen ∈ g.shipped options d, screen.unit.name ≠ name → screen ∈ g.shipped options other

theorem discovered_kebab {found : List FoundScreen} (h : g.discovered d = .ok found)
    {screen : FoundScreen} (hscreen : screen ∈ found) :
    screen.kebab = g.config.naming.kebab screen.name := by
  rw [discovered, discovery_inquiry] at h
  exact discover_kebab h hscreen

section Broken

variable {place : Place} {text : String} (bytes : List UInt8)
  (htext : d.at? place = some (.file (.text text)))

include htext

theorem open?_broken {home : Option String} {config : Config} (h : open? d home config = .ok g)
    (hindex : d.spot (g.project.path g.config.core.docsIndex) ≠ place) :
    open? (broken d place bytes) home config = .ok g := by
  obtain ⟨root, hroot, rfl⟩ := open?_ok h
  have hread : (broken d place bytes).readText (root.join config.core.docsIndex) =
      d.readText (root.join config.core.docsIndex) := broken_readText bytes htext hindex
  have hload : Screen.AllowList.load (broken d place bytes) (root.join config.core.docsIndex)
      config.core.docsInterfaceKind =
        .load d (root.join config.core.docsIndex) config.core.docsInterfaceKind := by
    unfold Screen.AllowList.load
    rw [hread]
  unfold open? Project.open?
  rw [broken_canonical bytes htext, hroot, ← hload]
  rfl

theorem readingScope_broken : g.readingScope (broken d place bytes) = g.readingScope d := by
  unfold readingScope Project.scope
  rw [broken_files bytes htext]

/-- A screen that is not prepared from the file is prepared as before. -/
theorem preparedOn_broken {scope : Scope} {config : Config} {allow : Screen.AllowList}
    {found : FoundScreen}
    (h : ¬ Reads d place ((prepare config.core allow found).run.inquiry scope)) :
    preparedOn config allow scope (broken d place bytes) found =
      preparedOn config allow scope d found := by
  have hsame := broken_on bytes htext h
  rw [prepare_on, prepare_on, Except.ok.injEq] at hsame
  rw [preparedOn, preparedOn, hsame]

/-- The screen of the file is not prepared any more. -/
theorem preparedOn_lost {screen other : FoundScreen} (hname : other.name = screen.name)
    (hkebab : other.kebab = screen.kebab)
    (hsource : ∃ key ∈ g.sources d screen, d.isFile key = true ∧ d.spot key = place) :
    ∃ e, preparedOn g.config g.allow (g.readingScope d) (broken d place bytes) other =
      .error (screen.name, e) := by
  obtain ⟨key, hkey, hfile, hspot⟩ := hsource
  obtain ⟨e, he⟩ := broken_unreadable bytes htext hfile hspot
  have hkeys : key = (implementationOf g.config.core (g.readingScope d) other).normalize ∨
      key = (declarationsOf g.config.core (g.readingScope d) other).normalize := by
    unfold implementationOf declarationsOf
    rw [hkebab]
    simpa [sources, implementationOf, declarationsOf] using hkey
  obtain ⟨e', he'⟩ := prepareOn_error hkeys he
  refine ⟨e', ?_⟩
  rw [preparedOn, he', hname]
  rfl

/-- The screens that are still prepared are those of other names. -/
theorem screensOf_broken {found : List FoundScreen} {screen : FoundScreen}
    (hfound : g.discovered d = .ok found) (hscreen : screen ∈ found)
    (hsource : ∃ key ∈ g.sources d screen, d.isFile key = true ∧ d.spot key = place)
    (hothers : ∀ other ∈ found, other.name ≠ screen.name →
      ¬ Reads d place ((prepare g.config.core g.allow other).run.inquiry (g.readingScope d)))
    (unit : PreparedUnit) :
    unit ∈ screensOf (found.map (preparedOn g.config g.allow (g.readingScope d)
        (broken d place bytes))) ↔
      unit ∈ screensOf (found.map (preparedOn g.config g.allow (g.readingScope d) d)) ∧
        unit.unit.name ≠ screen.name := by
  rw [mem_screensOf, mem_screensOf]
  constructor
  -- a screen of the same name has the same files
  · intro h
    obtain ⟨other, hother, hprepared⟩ := List.mem_map.1 h
    by_cases hsame : other.name = screen.name
    · have hkebab : other.kebab = screen.kebab := by
        rw [discovered_kebab hfound hother, discovered_kebab hfound hscreen, hsame]
      obtain ⟨e, he⟩ := preparedOn_lost bytes htext hsame hkebab hsource
      rw [hprepared] at he
      cases he
    · rw [preparedOn_broken bytes htext (hothers other hother hsame)] at hprepared
      exact ⟨List.mem_map.2 ⟨other, hother, hprepared⟩, by rw [preparedOn_name hprepared]; exact hsame⟩
  · rintro ⟨h, hne⟩
    obtain ⟨other, hother, hprepared⟩ := List.mem_map.1 h
    rw [preparedOn_name hprepared] at hne
    refine List.mem_map.2 ⟨other, hother, ?_⟩
    rw [preparedOn_broken bytes htext (hothers other hother hne), hprepared]

/-- What the run wrote before is accepted on the broken disk, with whatever
text. -/
theorem accepts_broken (hground : Grounded d) (c : Completed g options d)
    (hwritten : ∀ t ∈ c.ts ++ c.us, t.Succeeds ∧ t.spot ≠ place ∧ ¬ Illegible d t.spot) :
    ∃ kept : Disk → Prop, kept (broken d place bytes) ∧ ∀ a : Artifact,
      (∃ t ∈ c.ts ++ c.us, t.artifact.path = a.path) → Accepts (g.writer options) kept a := by
  have hspot : ∀ t ∈ c.ts ++ c.us, d.spot t.target ≠ place ∧ ¬ Illegible d (d.spot t.target) := by
    intro t ht
    obtain ⟨-, hplace, hlegible⟩ := hwritten t ht
    rw [(c.attempt_spot ht).2, ← (c.attempt_spot ht).1] at hplace hlegible
    exact ⟨hplace, hlegible⟩
  refine c.accepts_other hground (fun t ht => (hwritten t ht).1) (fun t ht existing hread => ?_)
    (clear_broken bytes htext) fun t ht => ?_
  · rw [broken_readIfExists bytes htext (hspot t ht).1, hread]
  · rintro ⟨other, hat⟩
    rw [spot_congr (broken_here bytes), broken_elsewhere bytes (hspot t ht).1] at hat
    exact (hspot t ht).2 ⟨other, hat⟩

end Broken

/-- Whether the manifest can be merged into does not depend on the entries. -/
theorem mergedManifest_other {manifest : Option String} {emitted : List EmittedScreen}
    {merged : Artifact} (h : g.mergedManifest manifest emitted = .ok merged)
    (other : List EmittedScreen) :
    ∃ again, g.mergedManifest manifest other = .ok again ∧ again.path = merged.path := by
  obtain ⟨text, htext, rfl⟩ := mergedManifest_ok_iff.1 h
  suffices hagain : ∃ again, mergeManifest manifest (manifestEntries g.config.output other)
      g.config.output.rootEntry = .ok again by
    obtain ⟨again, hagain⟩ := hagain
    exact ⟨_, mergedManifest_ok_iff.2 ⟨again, hagain, rfl⟩, rfl⟩
  unfold mergeManifest at htext ⊢
  -- only the manifest that is there can stop a merge
  cases hread : readManifest manifest with
  | error e =>
    rw [hread] at htext
    cases htext
  | ok value =>
    rw [hread] at htext
    cases value with
    | object members =>
      simp only [] at htext ⊢
      unfold mergeMembers at htext ⊢
      cases hexports : members.lookup "exports" with
      | none => exact ⟨_, rfl⟩
      | some exports =>
        rw [hexports] at htext
        cases exports with
        | object exports => exact ⟨_, rfl⟩
        | _ => cases htext
    | _ => cases htext

/-- A run that succeeds has read the manifest and prepared the screens that it found. -/
theorem Completed.found (c : Completed g options d) (hsound : Inquiry.Sound d g.project) :
    ∃ found, d.readIfExists g.manifestPath = .ok c.manifest ∧ g.discovered d = .ok found ∧
      c.prepared = found.map (preparedOn g.config g.allow (g.readingScope d) d) := by
  have hread := readAll_eq hsound
  rw [c.read_eq] at hread
  cases hmanifest : d.readIfExists g.manifestPath with
  | error e =>
    rw [hmanifest] at hread
    cases hread
  | ok manifest =>
    cases hfound : g.discovered d with
    | error e =>
      rw [hmanifest, hfound] at hread
      cases hread
    | ok found =>
      rw [hmanifest, hfound] at hread
      obtain ⟨hsame, hprepared⟩ := Prod.mk.inj (Except.ok.inj hread)
      exact ⟨found, by rw [hsame], rfl, hprepared⟩

/-- The manifest is among what a run that succeeds has written. -/
theorem Completed.manifest_tried (c : Completed g options d) :
    ∃ t ∈ c.ts ++ c.us, t.spot = d.spot g.manifestPath := by
  have hmem : c.merged ∈ c.us.map (·.artifact) := by
    rw [c.shared.artifacts_eq]
    simp
  obtain ⟨t, ht, heq⟩ := List.mem_map.1 hmem
  have htried := List.mem_append_right c.ts ht
  obtain ⟨text, -, hmerged⟩ := mergedManifest_ok_iff.1 c.merged_eq
  refine ⟨t, htried, ?_⟩
  rw [(c.attempt_spot htried).2, heq, hmerged]
  rfl

/-- A run that prepares some of the screens of a run in which no attempt failed
succeeds too, if its targets are accepted. -/
theorem Completed.of_fewer {other : Disk} (c : Completed g options d)
    (hok : ∀ t ∈ c.ts ++ c.us, t.Succeeds) {prepared : List Prepared}
    (hread : (g.readAll other).1 = .ok (c.manifest, prepared))
    (hfewer : ∀ unit ∈ screensOf prepared, unit ∈ c.shipped) {kept : Disk → Prop}
    (hkept : kept other) (haccept : ∀ a : Artifact,
      (∃ t ∈ c.ts ++ c.us, t.artifact.path = a.path) → Accepts (g.writer options) kept a) :
    ∃ again : Completed g options other,
      again.shipped = screensOf prepared ∧ again.skipped = skippedOf prepared := by
  obtain ⟨-, -, hartifacts⟩ := c.all_written hok
  obtain ⟨merged, hmerged, hpath⟩ := mergedManifest_other c.merged_eq
    ((screensOf prepared).map g.emitted)
  obtain ⟨hmodules, hshared⟩ := g.paths_among options (packageName c.manifest) hfewer
  -- every path of the run was written to before
  have haccepts : ∀ a b : Artifact, b.path = a.path →
      b ∈ (c.ts ++ c.us).map (·.artifact) → Accepts (g.writer options) kept a := by
    intro a b hpath hb
    obtain ⟨t, ht, heq⟩ := List.mem_map.1 hb
    exact haccept a ⟨t, ht, by rw [heq, hpath]⟩
  rw [hartifacts] at haccepts
  obtain ⟨again, ⟨-, -, -, hshipped, hskipped⟩, -⟩ := completed_of_accepts hread hmerged
    (fun a ha => by
      obtain ⟨b, hb, hpath⟩ := hmodules a ha
      exact haccepts a b hpath (List.mem_append_left _ hb))
    (fun a ha => by
      obtain ⟨b, hb, hpath⟩ := hshared.append (.singleton hpath.symm) a ha
      exact haccepts a b hpath (List.mem_append_right _ hb)) hkept
  exact ⟨again, hshipped, hskipped⟩

/-- A run that cannot read everything ends with the error. -/
theorem run_error {e : Failure} (h : (g.readAll d).1 = .error e) :
    (g.run options d).outcome = .error e := by
  rw [run_outcome, h, plan, Plan.carryOut_pure]

/-- The file of one screen is made illegible. If all writes of the run before
succeeded, and none was to the file or over an illegible one, the run loses that
screen and nothing else, exactly if finding the screens does not read the file. -/
theorem others_kept_iff {home : Option String} {config : Config} (hopen : open? d home config = .ok g)
    (hground : Grounded d) {report : Report} (hok : (g.run options d).outcome = .ok report)
    {place : Place}
    (hwritten : ∀ t ∈ g.attempts options d, t.Succeeds ∧ t.spot ≠ place ∧ ¬ Illegible d t.spot)
    {found : List FoundScreen} (hfound : g.discovered d = .ok found) {screen : FoundScreen}
    (hscreen : screen ∈ found) (hsource : g.OwnSource d screen place) (bytes : List UInt8) :
    open? (broken d place bytes) home config = .ok g ∧
      (g.OnlyLoses options d (broken d place bytes) screen.name ↔
        ¬ Reads d place ((discovery g.config).inquiry (g.readingScope d))) := by
  obtain ⟨⟨text, htext⟩, hkey, hothers, hindex⟩ := hsource
  refine ⟨open?_broken bytes htext hopen hindex, ?_⟩
  obtain ⟨c, rfl⟩ := completed_of_ok hok
  rw [c.run_eq.2.2] at hwritten
  have hshipped := (c.all_written fun t ht => (hwritten t ht).1).1
  obtain ⟨before, hmanifest, hbefore, hprepared⟩ := c.found (sound_of_open hopen d)
  obtain rfl := Except.ok.inj (hfound.symm.trans hbefore)
  have hspot : d.spot g.manifestPath ≠ place := by
    obtain ⟨t, ht, hspot⟩ := c.manifest_tried
    rw [← hspot]
    exact (hwritten t ht).2.1
  have hbroken := readAll_eq (sound_of_open hopen (broken d place bytes))
  rw [broken_readIfExists bytes htext hspot, hmanifest] at hbroken
  constructor
  -- finding the screens gives up at a file that it cannot read
  · rintro ⟨report, hrun, -⟩ hreads
    obtain ⟨e, he⟩ := broken_error bytes htext (strict_discovery g.config _) hreads
    have hlost : g.discovered (broken d place bytes) = .error e := by
      unfold discovered
      rw [readingScope_broken bytes htext]
      exact he
    rw [hlost] at hbroken
    rw [run_error hbroken] at hrun
    cases hrun
  -- the same screens are found, and all but one prepared as before
  · intro hreads
    have hagain : g.discovered (broken d place bytes) = .ok found := by
      rw [← hfound]
      unfold discovered
      rw [readingScope_broken bytes htext, broken_on bytes htext hreads]
    rw [hagain, readingScope_broken bytes htext] at hbroken
    have hscreens := screensOf_broken bytes htext hfound hscreen hkey (hothers found hfound)
    rw [← hprepared, ← hshipped] at hscreens
    obtain ⟨kept, hkept, haccept⟩ := accepts_broken bytes htext hground c hwritten
    obtain ⟨again, hagainShipped, -⟩ := c.of_fewer (fun t ht => (hwritten t ht).1) hbroken
      (fun unit hunit => ((hscreens unit).1 hunit).1) hkept haccept
    refine ⟨again.report, again.run_eq.1, ?_, ?_, ?_⟩
    · rw [again.shipped_eq]
      rfl
    · intro hname
      obtain ⟨unit, hunit, hname⟩ := List.mem_map.1 hname
      rw [hagainShipped] at hunit
      exact ((hscreens unit).1 hunit).2 hname
    · intro unit hunit hname
      rw [c.shipped_eq] at hunit
      rw [again.shipped_eq, hagainShipped]
      exact (hscreens unit).2 ⟨hunit, hname⟩

/-! ### The screen called `Index` again -/

theorem index_open : open? indexDisk none indexGenerator.config = .ok indexGenerator := rfl

theorem index_text : indexDisk.at? ["c", "index.ts"] = some (.file (.text "export class Index {}")) :=
  rfl

/-- The implementation of the screen `Index` is read for no other screen. -/
theorem index_own : ∃ found screen, indexGenerator.discovered indexDisk = .ok found ∧
    screen ∈ found ∧ screen.name = "Index" ∧
    indexGenerator.OwnSource indexDisk screen ["c", "index.ts"] := by
  obtain ⟨c, -, -, unit, hprepared, -, hname, -⟩ := index_completed
  obtain ⟨found, -, hfound, hmap⟩ := c.found (sound_of_open index_open indexDisk)
  rw [hprepared] at hmap
  -- the one prepared screen comes from the one that is found
  obtain ⟨screen, rest, rfl, hscreen, hrest⟩ := List.map_eq_cons_iff.1 hmap.symm
  obtain rfl := List.map_eq_nil_iff.1 hrest
  have hscreenName : screen.name = "Index" := by rw [← preparedOn_name hscreen, hname]
  have hkebab : screen.kebab = "index" := by
    rw [discovered_kebab hfound List.mem_cons_self, hscreenName]
    decide
  have hkey : (implementationOf indexGenerator.config.core
      (indexGenerator.readingScope indexDisk) screen).normalize = ⟨"/c/index.ts"⟩ := by
    unfold implementationOf
    rw [hkebab]
    decide +kernel
  refine ⟨[screen], screen, hfound, List.mem_cons_self, hscreenName, ⟨_, index_text⟩,
    ⟨⟨"/c/index.ts"⟩, ?_, by decide, by decide⟩, ?_, by decide⟩
  · rw [sources, hkey]
    exact List.mem_cons_self
  · intro others hothers other hother hne
    rw [hfound] at hothers
    rw [← Except.ok.inj hothers, List.mem_singleton] at hother
    rw [hother] at hne
    exact absurd rfl hne

theorem others_kept_index : ∃ screen : FoundScreen, screen.name = "Index" ∧
    (indexGenerator.OnlyLoses {} indexDisk (broken indexDisk ["c", "index.ts"] [255]) screen.name ↔
      ¬ Reads indexDisk ["c", "index.ts"]
        ((discovery indexGenerator.config).inquiry (indexGenerator.readingScope indexDisk))) := by
  obtain ⟨c, -, hattempts, -⟩ := index_completed
  obtain ⟨found, screen, hfound, hscreen, hname, hown⟩ := index_own
  have hground : Grounded indexDisk := by
    intro q hq
    rw [List.prefix_nil.1 hq]
    rfl
  have hwritten : ∀ t ∈ indexGenerator.attempts {} indexDisk,
      t.Succeeds ∧ t.spot ≠ ["c", "index.ts"] ∧ ¬ Illegible indexDisk t.spot := by
    intro t ht
    rw [c.run_eq.2.2] at ht
    obtain ⟨hsucceeds, hnone⟩ := hattempts t ht
    refine ⟨hsucceeds, fun hspot => ?_, ?_⟩
    · rw [hspot, index_text] at hnone
      cases hnone
    · rintro ⟨bytes, hat⟩
      rw [hnone] at hat
      cases hat
  exact ⟨screen, hname,
    (others_kept_iff index_open hground c.run_eq.1 hwritten hfound hscreen hown [255]).2⟩

/-- The barrel passes on what the implementation of `Index` exports, so a run reads
that file to find the screens, and ends when it is no text. -/
theorem run_lost : open? indexDisk none indexGenerator.config = .ok indexGenerator ∧
    (∃ report, (indexGenerator.run {} indexDisk).outcome = .ok report ∧
      report.screens = ["Index"]) ∧
    (∃ found screen, indexGenerator.discovered indexDisk = .ok found ∧ screen ∈ found ∧
      screen.name = "Index" ∧ indexGenerator.OwnSource indexDisk screen ["c", "index.ts"]) ∧
    ∃ e, (indexGenerator.run {} (broken indexDisk ["c", "index.ts"] [255])).outcome = .error e := by
  obtain ⟨c, hscreens, -⟩ := index_completed
  refine ⟨index_open, ⟨c.report, c.run_eq.1, hscreens⟩, index_own, ?_⟩
  have hread : (indexGenerator.readAll (broken indexDisk ["c", "index.ts"] [255])).1.isOk = false := by
    decide +kernel
  cases h : (indexGenerator.readAll (broken indexDisk ["c", "index.ts"] [255])).1 with
  | error e => exact ⟨e, run_error h⟩
  | ok found =>
    rw [h] at hread
    cases hread

end Generator

end ScreenHooks.Run
