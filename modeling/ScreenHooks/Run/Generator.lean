/-
A whole run.

A run first reads, then writes. Reading yields the text of the manifest and the
prepared screens; nothing is written if it fails. Writing goes through the
screens, where a failure costs that screen only, then through the artifacts
that all screens share and the manifest, where a failure ends the run.

* **`run_manifest_error`** — an unreadable manifest changes nothing.
-/
import ScreenHooks.Hook.Example
import ScreenHooks.Hook.Shared
import ScreenHooks.Output.Grouped
import ScreenHooks.Output.Manifest
import ScreenHooks.Output.Plan
import ScreenHooks.Run.Prepare
import ScreenHooks.Run.Report

namespace ScreenHooks.Run

open Output

/-- What the caller of a run decides. -/
structure Options where
  dryRun : Bool := false
  writeExamples : Bool := false

/-- Everything a run needs to know. -/
structure Generator where
  config : Config
  /-- The home directory, for paths that start with a tilde. -/
  home : Option String
  project : Sdk.Project
  allow : Screen.AllowList

namespace Generator

/-- Opens the core package and reads the documentation index. -/
def open? (d : Disk) (home : Option String) (config : Config) : Except Failure Generator := do
  let project ← Sdk.Project.open? d (expandHome home config.core.root)
  let index := project.path config.core.docsIndex
  return ⟨config, home, project, .load d index config.core.docsInterfaceKind⟩

/-- The directory that is written to. -/
def outputRoot (g : Generator) : Path := expandHome g.home g.config.output.root

/-- The path of the manifest. -/
def manifestPath (g : Generator) : Path := g.outputRoot.join g.config.output.manifest

/-- Finds the screens and prepares each. -/
def prepareAll (g : Generator) : Sdk.Reading (List Prepared) := Run.prepareAll g.config g.allow

/-- The writer of a run. -/
def writer (g : Generator) (options : Options) : Writer :=
  ⟨g.outputRoot, g.config.generation.sentinel, options.dryRun⟩

/-! ### Screens -/

/-- The name of the output package, as its manifest gives it. -/
def packageName (manifest : Option String) : String :=
  (((manifest.bind Json.read?).bind (·.get? "name")).bind Json.asString?).getD "bindings"

/-- The hook module of a screen. -/
def hookModule (g : Generator) (screen : PreparedUnit) : Hook.Module :=
  Hook.Module.of g.config.settings screen.unit screen.interfaces

/-- The artifact of a screen's hook module. -/
def screenArtifact (g : Generator) (screen : PreparedUnit) : Artifact :=
  .generated (g.config.output.screenModule screen.unit.kebab) (g.hookModule screen).text

/-- What shared artifacts say about a screen. The exported values are read off
the module's text. -/
def emitted (g : Generator) (screen : PreparedUnit) : EmittedScreen :=
  let artifact := g.screenArtifact screen
  let read := Script.Module.read (Script.Module.dialectOf artifact.path) artifact.content
  { unit := screen.unit
    module := artifact.path
    values := read.valueExports.toList
    types := (g.hookModule screen).typeExports }

/-- The usage document of a screen. -/
def document (g : Generator) (package : String) (screen : PreparedUnit) : Artifact :=
  .companion (g.config.output.exampleDoc screen.unit.kebab)
    (Hook.exampleDocument g.config.settings screen.unit screen.interfaces package)

/-- How far a run has come: the report so far and the screens whose modules
were written. -/
structure Progress where
  report : Report
  shipped : List PreparedUnit := []

/-- Writes the usage document of a screen; a failure is passed over. -/
def writeDocument (g : Generator) (package : String) (screen : PreparedUnit) (report : Report) :
    Plan Report := do
  let doc := g.document package screen
  match ← Plan.attempt doc with
  | .ok outcome => return report.record doc.path outcome
  | .error _ => return report

/-- Writes one screen, if it could be prepared. -/
def writeScreen (g : Generator) (options : Options) (package : String) (progress : Progress) :
    Prepared → Plan Progress
  | .error (name, e) => pure { progress with report := progress.report.skip name e.message }
  | .ok screen => do
    let artifact := g.screenArtifact screen
    match ← Plan.attempt artifact with
    | .error e =>
      return { progress with report := progress.report.skip screen.unit.name e.fullMessage }
    | .ok outcome =>
      let report := (progress.report.record artifact.path outcome).list screen.unit.name
      let report ←
        if options.writeExamples then g.writeDocument package screen report else pure report
      return ⟨report, progress.shipped ++ [screen]⟩

/-- Writes the screens in turn. -/
def writeScreens (g : Generator) (options : Options) (package : String)
    (prepared : List Prepared) : Plan Progress :=
  prepared.foldlM (g.writeScreen options package) ⟨{ dryRun := options.dryRun }, []⟩

/-! ### Shared artifacts -/

/-- The modules that every hook module builds on, and the barrel. -/
def baseArtifacts (g : Generator) (emitted : List EmittedScreen) : List Artifact :=
  let layout := g.config.output
  let settings := g.config.settings
  [.generated (layout.hooksModule Hook.contextHooksModule) (Hook.contextHooksText settings),
    .companion (layout.hooksModule Hook.utilityModule) (Hook.utilityText settings),
    .companion (layout.hooksModule Hook.commonModule) (Hook.commonText settings),
    barrel layout emitted]

/-- The artifacts that all screens share, apart from the manifest. -/
def sharedArtifacts (g : Generator) (emitted : List EmittedScreen) : List Artifact :=
  g.baseArtifacts emitted ++ groupedArtifacts g.config.output emitted

/-- Writes a shared artifact. -/
def writeShared (report : Report) (artifact : Artifact) : ExceptT Failure Plan Report := do
  match ← Plan.attempt artifact with
  | .ok outcome => return report.record artifact.path outcome
  | .error e => throw (.run (.sharedWrite artifact.path e.fullMessage))

/-- Writes shared artifacts in turn. -/
def writeAllShared (report : Report) (artifacts : List Artifact) : ExceptT Failure Plan Report :=
  artifacts.foldlM writeShared report

/-- The manifest with the entries of a run. -/
def mergedManifest (g : Generator) (manifest : Option String) (emitted : List EmittedScreen) :
    Except Failure Artifact :=
  let layout := g.config.output
  match mergeManifest manifest (manifestEntries layout emitted) layout.rootEntry with
  | .ok text => .ok (.generated layout.manifest text)
  | .error e => .error (.run (.sharedWrite layout.manifest e.message))

/-- Writes everything, given what has been read. -/
def writeAll (g : Generator) (options : Options) (manifest : Option String)
    (prepared : List Prepared) : ExceptT Failure Plan Report := do
  -- a failure here costs one screen
  let progress ← g.writeScreens options (packageName manifest) prepared
  let emitted := progress.shipped.map g.emitted
  -- a failure from here on ends the run
  let report ← writeAllShared progress.report (g.sharedArtifacts emitted)
  writeShared report (← g.mergedManifest manifest emitted)

/-! ### Runs -/

/-- What is read before anything is written: the text of the manifest and the
prepared screens. The modules that are known afterwards come with it. -/
def readAll (g : Generator) (d : Disk) :
    Except Failure (Option String × List Prepared) × Sdk.Project :=
  match d.readIfExists g.manifestPath with
  | .error e => (.error (.file e), g.project)
  | .ok manifest =>
    let (prepared, project) := g.prepareAll.run d g.project
    (prepared.map fun screens => (manifest, screens), project)

/-- What a run writes, given what has been read. -/
def plan (g : Generator) (options : Options) :
    Except Failure (Option String × List Prepared) → Plan (Except Failure Report)
  | .error e => pure (.error e)
  | .ok (manifest, screens) => (g.writeAll options manifest screens).run

/-- What a run leaves: its report, the disk, and the modules that are known. -/
structure Result where
  outcome : Except Failure Report
  disk : Disk
  project : Sdk.Project

/-- A run. -/
def run (g : Generator) (options : Options) (d : Disk) : Result :=
  let (found, project) := g.readAll d
  let (outcome, after) := (g.plan options found).carryOut (g.writer options) d
  ⟨outcome, after, project⟩

theorem run_manifest_error (g : Generator) (options : Options) (d : Disk) (e : FileError)
    (h : d.readIfExists g.manifestPath = .error e) :
    g.run options d = ⟨.error (.file e), d, g.project⟩ := by
  have hread : g.readAll d = (.error (.file e), g.project) := by
    unfold readAll
    rw [h]
  unfold run
  rw [hread]
  rfl

end Generator

end ScreenHooks.Run
