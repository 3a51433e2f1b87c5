/-
A core package without some of its declaration files.

Files are taken away that a run meets only as the declarations of their screens:
neither finding the screens nor preparing another one asks for them. Then their
screens are skipped, and the rest of the run goes on as before: the same other
screens are found, prepared and written, in the same order and with the same
modules.

* **`preparedOn_without`**, **`preparedOn_missing`** — one screen;
* **`screensOf_without`** — the screens that are still prepared;
* **`run_without`** — the whole run;
* **`barrel_missing`** — a barrel that is a declaration file, too.
-/
import ScreenHooks.Proofs.Disk.Removing
import ScreenHooks.Proofs.Run.Breakage
import ScreenHooks.Proofs.Run.Rereading

namespace ScreenHooks.Run

open Disk Output Script Sdk

variable {d : Disk} {gone : List Place}

/-! ### Questions -/

/-- Whether an inquiry meets a file at one of some places: a specifier leads there, or
the file is read. -/
def Meets {α : Type} (d : Disk) (places : List Place) (x : Inquiry α) : Prop :=
  ∃ q ∈ x.asked d, d.isFile q.path = true ∧ d.spot q.path ∈ places

section Without

variable (hgone : d.AllFiles gone)

include hgone

theorem readModule_without {key : Path} (hkey : ¬ (d.isFile key = true ∧ d.spot key ∈ gone)) :
    readModule (d.without gone) key = readModule d key := by
  unfold readModule
  cases hfile : d.isFile key with
  | false =>
    have hmissing : ¬ (d.without gone).isFile key = true := by
      rw [isFile_without hgone, hfile]
      simp
    rw [if_neg hmissing]
    rfl
  | true =>
    have hspot : d.spot key ∉ gone := fun h => hkey ⟨hfile, h⟩
    have hagain : (d.without gone).isFile key = true := (isFile_without hgone).2 ⟨hfile, hspot⟩
    obtain ⟨hvalid, hdirs, -⟩ := isFile_iff.1 hfile
    have hreach : d.Reaches key := ⟨hvalid, hdirs⟩
    have hread : (d.without gone).readText key = d.readText key := by
      rw [readText_of_reaches hreach, readText_of_reaches ((reaches_without hgone).2 hreach),
        spot_congr (without_here d gone), at?_without_of_not_mem hspot]
    rw [if_pos hagain, if_pos rfl, hread]

/-- A module that has been taken away is missing. -/
theorem readModule_missing {key : Path} (hspot : d.spot key ∈ gone) :
    readModule (d.without gone) key = .ok none := by
  have hmissing : ¬ (d.without gone).isFile key = true := by
    rw [isFile_without hgone]
    exact fun h => h.2 hspot
  rw [readModule, if_neg hmissing]

/-- A question that meets none of the files is answered as before. -/
theorem same_without {q : Question} (hq : ¬ (d.isFile q.path = true ∧ d.spot q.path ∈ gone)) :
    q.Same d (d.without gone) := by
  cases q with
  | file path =>
    show (d.without gone).isFile path = d.isFile path
    rw [Bool.eq_iff_iff, isFile_without hgone]
    exact ⟨fun h => h.1, fun h => ⟨h, fun hspot => hq ⟨h, hspot⟩⟩⟩
  | module key => exact readModule_without hgone hq

/-- A reading that meets none of the files ends as before. -/
theorem Reading.on_without {α : Type} {x : Reading α} (halike : ∀ e, x.Alike e x) {p : Project}
    (h : ¬ Meets d gone (x.inquiry (p.scope d))) :
    (x.inquiry (p.scope (d.without gone))).on (d.without gone) = (x.inquiry (p.scope d)).on d := by
  have hsame : ∀ q ∈ (x.inquiry (p.scope d)).asked d, q.Same d (d.without gone) :=
    fun q hq => same_without hgone fun hmeets => h ⟨q, hq, hmeets⟩
  have hroot : (p.scope d).root = (p.scope (d.without gone)).root := rfl
  exact (Reading.on_same halike hroot (p.scope_enough d) (p.scope_enough _) hsame).1

theorem clear_without {paths : List Path} (hclear : Clear d paths) :
    Clear (d.without gone) paths where
  start p hp := (directory_without hgone).2 (hclear.start p hp)
  valid := hclear.valid
  named := hclear.named
  route p hp c hc contents hat := hclear.route p hp c hc contents ((file_without hgone).1 hat).1
  free p hp hat := hclear.free p hp ((directory_without hgone).1 hat)
  apart := hclear.apart

/-! ### One screen -/

variable {config : Config} {allow : Screen.AllowList} {p : Project} {screen : FoundScreen}

/-- A screen whose preparation meets none of the files is prepared as before. -/
theorem preparedOn_without
    (h : ¬ Meets d gone ((prepare config.core allow screen).run.inquiry (p.scope d))) :
    preparedOn config allow (p.scope (d.without gone)) (d.without gone) screen =
      preparedOn config allow (p.scope d) d screen := by
  have halike : ∀ e, (prepare config.core allow screen).run.Alike e
      (prepare config.core allow screen).run := fun e =>
    (tolerant_alike e).prepare exportedNames_alike config.core allow screen
  have hsame := Reading.on_without hgone halike h
  rw [prepare_on, prepare_on, Except.ok.injEq] at hsame
  rw [preparedOn, preparedOn, hsame]

/-- A screen without its declaration file is not prepared. -/
theorem preparedOn_missing {scope : Scope}
    (h : d.spot (declarationsOf config.core scope screen).normalize ∈ gone) :
    ∃ e, preparedOn config allow scope (d.without gone) screen = .error (screen.name, e) := by
  have hmissing : companionOn (d.without gone) screen.name .declaration
      (declarationsOf config.core scope screen) =
        .error (.missingCompanion screen.name .declaration
          (declarationsOf config.core scope screen)) := by
    unfold companionOn
    rw [readModule_missing hgone h]
  have hfails : ∃ e, prepareOn config.core allow scope (d.without gone) screen = .error e := by
    unfold prepareOn
    rw [hmissing]
    cases companionOn (d.without gone) screen.name .implementation
        (implementationOf config.core scope screen) with
    | error e => exact ⟨e, rfl⟩
    | ok implementation => exact ⟨_, rfl⟩
  obtain ⟨e, he⟩ := hfails
  refine ⟨e, ?_⟩
  rw [preparedOn, he]
  rfl

end Without

namespace Generator

variable {g : Generator} {options : Options}

/-- The place that the declarations of a screen are read from. -/
def declarationPlace (g : Generator) (d : Disk) (kebab : String) : Place :=
  d.spot (g.project.path (g.config.core.declarationPath kebab)).normalize

/-- Whether a run meets files only as the declarations of their screens. Neither the
root of the package nor the documentation index is among them, and they are met
neither when the screens are found nor when a screen is prepared that has its
declarations elsewhere. -/
structure OnlyDeclares (g : Generator) (d : Disk) (places : List Place) : Prop where
  files : d.AllFiles places
  root : d.spot (expandHome g.home g.config.core.root) ∉ places
  index : d.spot (g.project.path g.config.core.docsIndex) ∉ places
  discovery : ¬ Meets d places ((discovery g.config).inquiry (g.readingScope d))
  others : ∀ found, g.discovered d = .ok found → ∀ screen ∈ found,
    g.declarationPlace d screen.kebab ∉ places →
      ¬ Meets d places ((prepare g.config.core g.allow screen).run.inquiry (g.readingScope d))

/-! ### All screens -/

theorem open?_without {home : Option String} {config : Config} (h : open? d home config = .ok g)
    (hgone : g.OnlyDeclares d gone) : open? (d.without gone) home config = .ok g := by
  obtain ⟨root, hroot, rfl⟩ := open?_ok h
  have hagain := canonical_without hgone.files hroot hgone.root
  have hload : Screen.AllowList.load (d.without gone) (root.join config.core.docsIndex)
      config.core.docsInterfaceKind =
        .load d (root.join config.core.docsIndex) config.core.docsInterfaceKind := by
    have hindex : d.spot (root.join config.core.docsIndex) ∉ gone := hgone.index
    unfold Screen.AllowList.load
    cases hread : d.readText (root.join config.core.docsIndex) with
    | ok text => rw [(readText_without hgone.files).2 ⟨hread, hindex⟩]
    | error cause =>
      cases hreadAgain : (d.without gone).readText (root.join config.core.docsIndex) with
      | ok text =>
        rw [((readText_without hgone.files).1 hreadAgain).1] at hread
        cases hread
      | error other => rfl
  unfold open? Project.open?
  rw [hagain, ← hload]
  rfl

/-- A screen that has lost its declarations is not prepared. -/
theorem preparedOn_gone (hgone : g.OnlyDeclares d gone) {screen : FoundScreen}
    (h : g.declarationPlace d screen.kebab ∈ gone) :
    ∃ e, preparedOn g.config g.allow (g.readingScope (d.without gone)) (d.without gone) screen =
      .error (screen.name, e) := preparedOn_missing hgone.files h

theorem discovered_without (hgone : g.OnlyDeclares d gone) :
    g.discovered (d.without gone) = g.discovered d :=
  Reading.on_without hgone.files
    (fun e => (tolerant_alike e).discovery exportedNames_alike g.config) hgone.discovery

/-- The screens that are still prepared are those with their declarations elsewhere, as
they were and in their order. -/
theorem screensOf_without (hgone : g.OnlyDeclares d gone) {found : List FoundScreen}
    (hfound : ∀ screen ∈ found, g.declarationPlace d screen.kebab ∉ gone →
      ¬ Meets d gone ((prepare g.config.core g.allow screen).run.inquiry (g.readingScope d))) :
    screensOf (found.map (preparedOn g.config g.allow (g.readingScope (d.without gone))
        (d.without gone))) =
      (screensOf (found.map (preparedOn g.config g.allow (g.readingScope d) d))).filter
        fun screen => g.declarationPlace d screen.unit.kebab ∉ gone := by
  induction found with
  | nil => rfl
  | cons screen rest ih =>
    have hrest := ih fun other hother => hfound other (List.mem_cons_of_mem _ hother)
    rw [List.map_cons, List.map_cons]
    -- a screen is left out with its declarations, and prepared as before otherwise
    by_cases hplace : g.declarationPlace d screen.kebab ∈ gone
    · obtain ⟨e, he⟩ := preparedOn_gone hgone hplace
      rw [he, screensOf_error, hrest]
      cases hprepared : preparedOn g.config g.allow (g.readingScope d) d screen with
      | error failed => rw [screensOf_error]
      | ok unit =>
        rw [screensOf_ok, List.filter_cons_of_neg]
        rw [(preparedOn_unit hprepared).2]
        simpa using hplace
    · have hsame := preparedOn_without hgone.files (hfound screen List.mem_cons_self hplace)
      rw [readingScope, hsame]
      cases hprepared : preparedOn g.config g.allow (g.project.scope d) d screen with
      | error failed =>
        rw [screensOf_error, readingScope, hprepared, screensOf_error]
        exact hrest
      | ok unit =>
        rw [screensOf_ok, readingScope, hprepared, screensOf_ok, List.filter_cons_of_pos]
        · exact congrArg (unit :: ·) hrest
        · rw [(preparedOn_unit hprepared).2]
          simpa using hplace

/-! ### The whole run -/

/-- Files are taken away that a run has met only as the declarations of their screens.
If all its writes succeeded, and none was to such a file or over an illegible one, the
run without them succeeds, too. It reports the same screens but those of the files,
which it skips, and writes the same modules for them. -/
theorem run_without {home : Option String} {config : Config} (hopen : open? d home config = .ok g)
    (hground : Grounded d) {report : Report} (hok : (g.run options d).outcome = .ok report)
    (hwritten : ∀ t ∈ g.attempts options d, t.Succeeds ∧ t.spot ∉ gone ∧ ¬ Illegible d t.spot)
    (hgone : g.OnlyDeclares d gone) :
    open? (d.without gone) home config = .ok g ∧
      ∃ less, (g.run options (d.without gone)).outcome = .ok less ∧
        less.screens = report.screens.filter
          (fun name => g.declarationPlace d (g.config.naming.kebab name) ∉ gone) ∧
        (∀ found, g.discovered d = .ok found → ∀ screen ∈ found,
          g.declarationPlace d screen.kebab ∈ gone →
            ∃ skipped ∈ less.skipped, skipped.name = screen.name) ∧
        g.shipped options (d.without gone) = (g.shipped options d).filter
          (fun screen => g.declarationPlace d screen.unit.kebab ∉ gone) ∧
        ∀ screen ∈ g.shipped options (d.without gone),
          ∃ t ∈ g.attempts options d, ∃ u ∈ g.attempts options (d.without gone),
            t.artifact = g.screenArtifact screen ∧ u.artifact = t.artifact ∧ u.Succeeds := by
  have hopenAgain := open?_without hopen hgone
  refine ⟨hopenAgain, ?_⟩
  obtain ⟨c, rfl⟩ := completed_of_ok hok
  rw [c.run_eq.2.2] at hwritten
  have hsucceeds : ∀ t ∈ c.ts ++ c.us, t.Succeeds := fun t ht => (hwritten t ht).1
  have hshipped := (c.all_written hsucceeds).1
  obtain ⟨found, hmanifest, hfound, hprepared⟩ := c.found (sound_of_open hopen d)
  have hspot : ∀ t ∈ c.ts ++ c.us, d.spot t.target ∉ gone ∧ ¬ Illegible d (d.spot t.target) := by
    intro t ht
    obtain ⟨-, hplace, hlegible⟩ := hwritten t ht
    rw [(c.attempt_spot ht).2, ← (c.attempt_spot ht).1] at hplace hlegible
    exact ⟨hplace, hlegible⟩
  -- what is read without the files
  have hmanifestSpot : d.spot g.manifestPath ∉ gone := by
    obtain ⟨t, ht, hplace⟩ := c.manifest_tried
    rw [← hplace]
    exact (hwritten t ht).2.1
  have hread := readAll_eq (sound_of_open hopen (d.without gone))
  rw [readIfExists_without hgone.files hmanifest hmanifestSpot, discovered_without hgone,
    hfound] at hread
  have hscreens := screensOf_without hgone (hgone.others found hfound)
  rw [← hprepared, ← hshipped] at hscreens
  -- what is written without them
  obtain ⟨kept, hkept, haccept⟩ := c.accepts_other hground hsucceeds
    (fun t ht existing => fun hexisting => readIfExists_without hgone.files hexisting (hspot t ht).1)
    (clear_without hgone.files) (fun t ht => by
      rintro ⟨bytes, hat⟩
      rw [spot_congr (without_here d gone)] at hat
      exact (hspot t ht).2 ⟨bytes, ((file_without hgone.files).1 hat).1⟩)
  obtain ⟨again, hagain, hskipped⟩ := c.of_fewer hsucceeds hread
    (fun unit hunit => List.mem_of_mem_filter (hscreens ▸ hunit)) hkept haccept
  rw [hscreens] at hagain
  have hkebab : ∀ unit ∈ c.shipped, unit.unit.kebab = g.config.naming.kebab unit.unit.name := by
    intro unit hunit
    rw [hshipped, hprepared, mem_screensOf] at hunit
    obtain ⟨screen, hscreen, hunit⟩ := List.mem_map.1 hunit
    obtain ⟨hname, hkebab⟩ := preparedOn_unit hunit
    rw [hname, hkebab, discovered_kebab hfound hscreen]
  refine ⟨again.report, again.run_eq.1, ?_, ?_, ?_, ?_⟩
  · show again.shipped.map (·.unit.name) = (c.shipped.map (·.unit.name)).filter _
    rw [hagain, List.filter_map]
    refine congrArg _ (List.filter_congr fun unit hunit => ?_)
    rw [hkebab unit hunit]
    rfl
  · intro others hothers screen hscreen hplace
    obtain rfl := Except.ok.inj (hfound.symm.trans hothers)
    obtain ⟨e, he⟩ := preparedOn_gone hgone hplace
    refine ⟨⟨screen.name, e.message⟩, ?_, rfl⟩
    show _ ∈ again.skipped
    rw [hskipped]
    exact skipped_of_mem (List.mem_map.2 ⟨screen, hscreen, he⟩)
  · rw [again.shipped_eq, c.shipped_eq, hagain]
  · intro screen hscreen
    rw [again.shipped_eq] at hscreen
    obtain ⟨u, hu, -, hwrites, hsucceeded⟩ := again.screens.shipped_spec hscreen
    rw [hagain] at hscreen
    obtain ⟨t, ht, -, hwrote, -⟩ := c.screens.shipped_spec (List.mem_of_mem_filter hscreen)
    rw [c.run_eq.2.2, again.run_eq.2.2]
    exact ⟨t, List.mem_append_left _ ht, u, List.mem_append_left _ hu, hwrote, by rw [hwrites, hwrote],
      hsucceeded⟩

/-! ### Two screens -/

/-- A core package with two screens, each with a file of its own. -/
def pairDisk : Disk where
  entries := [(["c"], .directory),
    (["c", "all.ts"], .file (.text "export class A \x7b\x7d\nexport class B \x7b\x7d")),
    (["c", "a.ts"], .file (.text "")), (["c", "b.ts"], .file (.text ""))]

/-- The places of all that is written for them. -/
def pairPlaces : List Place :=
  [["o", "src", "screens", "a.tsx"], ["o", "src", "screens", "b.tsx"],
    ["o", "src", "hooks", "context-hooks.ts"], ["o", "src", "hooks", "utility.ts"],
    ["o", "src", "hooks", "common.ts"], ["o", "src", "index.ts"],
    ["o", "src", "exports", "screens", "a.ts"], ["o", "src", "exports", "screens", "b.ts"],
    ["o", "src", "exports", "screens", "index.ts"], ["o", "src", "exports", "types", "a.ts"],
    ["o", "src", "exports", "types", "b.ts"], ["o", "src", "exports", "types", "index.ts"],
    ["o", "src", "exports", "index.ts"], ["o", "package.json"]]

theorem pair_clear : Clear pairDisk (pairPlaces.map pathOf) ∧
    ∀ p ∈ pairPlaces.map pathOf, pairDisk.at? (pairDisk.spot p) = none :=
  ⟨clear_of_forall (by decide +kernel), by decide +kernel⟩

/-- A run for some of these screens succeeds where nothing has been written before. -/
theorem completed_of_pair {d : Disk} (units : List (String × String))
    (hclear : Clear d (pairPlaces.map pathOf))
    (hnew : ∀ p ∈ pairPlaces.map pathOf, d.at? (d.spot p) = none)
    (hfound : (indexGenerator.readAll d).1.toOption.map (fun found => (found.1,
      (screensOf found.2).map fun screen => (screen.unit.name, screen.unit.kebab))) =
        some (none, units))
    (hunits : ∀ below ∈ writtenPaths indexGenerator.config.output false (units.map Prod.snd),
      indexGenerator.outputRoot.join below ∈ pairPlaces.map pathOf) :
    ∃ c : Completed indexGenerator {} d, c.report.screens = units.map Prod.fst ∧
      ∀ t ∈ c.ts ++ c.us, t.Succeeds ∧ d.at? t.spot = none := by
  cases hread : (indexGenerator.readAll d).1 with
  | error e =>
    rw [hread] at hfound
    cases hfound
  | ok found =>
    rw [hread] at hfound
    obtain ⟨manifest, prepared⟩ := found
    obtain ⟨rfl, rfl⟩ := Prod.mk.inj (Option.some.inj hfound)
    rw [List.map_map] at hunits
    obtain ⟨c, -, hshipped, hwritten⟩ : ∃ c : Completed indexGenerator {} d, _ :=
      completed_of_paths hread hunits hclear hnew
    refine ⟨c, ?_, hwritten⟩
    show c.shipped.map _ = _
    rw [hshipped, List.map_map]
    rfl

theorem pair_completed : ∃ c : Completed indexGenerator {} pairDisk,
    c.report.screens = ["A", "B"] ∧ ∀ t ∈ c.ts ++ c.us, t.Succeeds ∧ pairDisk.at? t.spot = none :=
  completed_of_pair [("A", "a"), ("B", "b")] pair_clear.1 pair_clear.2 (by decide +kernel)
    (by decide +kernel)

/-- The two screens. -/
def pairScreens : List FoundScreen :=
  [⟨"A", "a", ⟨⟨"/c/all.ts"⟩, some "A", .classType⟩⟩,
    ⟨"B", "b", ⟨⟨"/c/all.ts"⟩, some "B", .classType⟩⟩]

theorem pair_found : indexGenerator.discovered pairDisk = .ok pairScreens := by
  let parts : FoundScreen → String × String × Resolved :=
    fun screen => (screen.name, screen.kebab, screen.resolved)
  have hparts : (indexGenerator.discovered pairDisk).toOption.map (·.map parts) =
      some (pairScreens.map parts) := by decide +kernel
  have hinjective : Function.Injective parts := by
    rintro ⟨name, kebab, resolved⟩ ⟨_, _, _⟩ h
    cases h
    rfl
  cases hfound : indexGenerator.discovered pairDisk with
  | error e =>
    rw [hfound] at hparts
    cases hparts
  | ok found =>
    rw [hfound] at hparts
    exact congrArg _ (List.map_injective_iff.2 hinjective (Option.some.inj hparts))

/-- The file of the first screen is met for that screen only. -/
theorem pair_only : indexGenerator.OnlyDeclares pairDisk [["c", "a.ts"]] where
  files := by
    intro q hq
    rw [List.mem_singleton.1 hq]
    exact ⟨_, rfl⟩
  root := by decide +kernel
  index := by decide +kernel
  discovery := by
    unfold Meets
    decide +kernel
  others := by
    intro found hfound screen hscreen
    obtain rfl := Except.ok.inj (pair_found.symm.trans hfound)
    revert screen
    unfold Meets
    decide +kernel

theorem run_without_pair : ∃ report less,
    (indexGenerator.run {} pairDisk).outcome = .ok report ∧ report.screens = ["A", "B"] ∧
      (indexGenerator.run {} (pairDisk.without [["c", "a.ts"]])).outcome = .ok less ∧
      less.screens = ["B"] ∧ (∃ skipped ∈ less.skipped, skipped.name = "A") ∧
      ∀ screen ∈ indexGenerator.shipped {} (pairDisk.without [["c", "a.ts"]]),
        screen ∈ indexGenerator.shipped {} pairDisk := by
  obtain ⟨c, hscreens, hattempts⟩ := pair_completed
  have hground : Grounded pairDisk := by
    intro q hq
    rw [List.prefix_nil.1 hq]
    rfl
  -- the run writes where nothing is, so not over the declarations
  have hwritten : ∀ t ∈ indexGenerator.attempts {} pairDisk,
      t.Succeeds ∧ t.spot ∉ [["c", "a.ts"]] ∧ ¬ Illegible pairDisk t.spot := by
    intro t ht
    rw [c.run_eq.2.2] at ht
    obtain ⟨hsucceeds, hnone⟩ := hattempts t ht
    refine ⟨hsucceeds, fun hspot => ?_, ?_⟩
    · rw [List.mem_singleton.1 hspot] at hnone
      cases hnone
    · rintro ⟨bytes, hat⟩
      rw [hnone] at hat
      cases hat
  have hopen : open? pairDisk none indexGenerator.config = .ok indexGenerator := rfl
  obtain ⟨-, less, hok, hless, hskipped, hshipped, -⟩ :=
    run_without hopen hground c.run_eq.1 hwritten pair_only
  refine ⟨c.report, less, c.run_eq.1, hscreens, hok, ?_, ?_, fun screen hscreen => ?_⟩
  · rw [hless, hscreens]
    decide +kernel
  · exact hskipped _ pair_found _ List.mem_cons_self (by decide +kernel)
  · rw [hshipped] at hscreen
    exact List.mem_of_mem_filter hscreen

/-! ### A barrel that is a declaration file -/

/-- A core package whose barrel is the declaration file of its only screen, which has no
implementation. -/
def barrelDisk : Disk where
  entries := [(["c"], .directory), (["c", "index.ts"], .file (.text "export class Index \x7b\x7d"))]

def barrelGenerator : Generator where
  config :=
    { core :=
        { root := ⟨"/c"⟩
          screensBarrel := ⟨"index.ts"⟩
          implementationPattern := "impl/\x7bkebab\x7d.ts"
          declarationPattern := "\x7bkebab\x7d.ts" }
      output := { root := ⟨"/o"⟩ } }
  home := none
  project := { root := ⟨"/c"⟩ }
  allow := .empty

/-- No specifier leads to the barrel, and no write fails, but without the barrel there is
no run, even if it is the declaration file of a screen. -/
theorem barrel_missing : open? barrelDisk none barrelGenerator.config = .ok barrelGenerator ∧
    (∃ report, (barrelGenerator.run {} barrelDisk).outcome = .ok report ∧
      (report.skipped.map (·.name) = ["Index"])) ∧
    (∀ t ∈ barrelGenerator.attempts {} barrelDisk, t.Succeeds) ∧
    barrelGenerator.declarationPlace barrelDisk "index" = ["c", "index.ts"] ∧
    (∀ q ∈ (barrelGenerator.prepareAll.inquiry (barrelGenerator.readingScope barrelDisk)).asked
      barrelDisk, ∀ path, q ≠ .file path) ∧
    ∃ e, (barrelGenerator.run {} (barrelDisk.without [["c", "index.ts"]])).outcome = .error e := by
  refine ⟨rfl, ?_, ?_, by decide +kernel, ?_, ?_⟩
  · have hreport : (barrelGenerator.run {} barrelDisk).outcome.toOption.map
        (·.skipped.map (·.name)) = some ["Index"] := by decide +kernel
    cases houtcome : (barrelGenerator.run {} barrelDisk).outcome with
    | error e =>
      rw [houtcome] at hreport
      cases hreport
    | ok report =>
      rw [houtcome] at hreport
      exact ⟨report, rfl, Option.some.inj hreport⟩
  · have hwritten : ∀ t ∈ barrelGenerator.attempts {} barrelDisk, t.outcome.isOk = true := by
      decide +kernel
    exact fun t ht => exists_ok (hwritten t ht)
  · have hasked : ∀ q ∈ (barrelGenerator.prepareAll.inquiry
        (barrelGenerator.readingScope barrelDisk)).asked barrelDisk, q ≠ .file q.path := by
      decide +kernel
    rintro q hq path rfl
    exact hasked _ hq rfl
  · obtain ⟨e, he⟩ : ∃ e, (barrelGenerator.readAll (barrelDisk.without [["c", "index.ts"]])).1 =
        .error e := exists_error (by decide +kernel)
    exact ⟨e, run_error he⟩

end Generator

end ScreenHooks.Run
