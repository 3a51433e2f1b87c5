/-
Running the program.

The program reads its command line, does what it is asked to do on a disk, and
ends with a code: 0 if that was done, 1 if it failed, 2 if the command line is
not understood. A dry run says what would be written.

* **`run_stop`** — a command line without a request leaves the disk alone.
-/
import ScreenHooks.Command.Help
import ScreenHooks.Command.Summary
import ScreenHooks.Config.Load
import ScreenHooks.Config.Template

namespace ScreenHooks.Command

open Disk Output Run

/-- Why a command failed. -/
inductive CommandError where
  | config (error : ConfigError)
  | failure (error : Failure)
  /-- There is a configuration file already. -/
  | configExists (path : Path)
  | configDirectory
  | configFile
  /-- It is not said where a completion script is to go. -/
  | noTarget
  deriving DecidableEq

/-- The text of an error. -/
def CommandError.message : CommandError → String
  | config error => error.message
  | failure error => error.message
  | configExists path =>
    "Config file already exists at " ++ path.text ++ ". Use --force to overwrite."
  | configDirectory => "Failed to create config directory"
  | configFile => "Failed to write config file"
  | noTarget => "--out-dir is required unless --stdout is set"

/-- What a command prints. -/
structure Printed where
  stdout : String := ""
  stderr : String := ""

/-- A command at work. -/
abbrev Action := Change CommandError Printed

/-- A text, unless the program is to be quiet. -/
def unlessQuiet (globals : Globals) (text : String) : String :=
  if globals.quiet then "" else text

/-- The configuration with the roots that the command line gives. -/
def effectiveConfig (environment : Environment) (globals : Globals) (core out : Option Path) :
    Change CommandError Config := do
  let config ← outcome ((Config.load (← get) environment globals.config).mapError .config)
  return { config with
    core := { config.core with root := core.getD config.core.root }
    output := { config.output with root := out.getD config.output.root } }

/-- The generator of a command. -/
def openGenerator (environment : Environment) (globals : Globals) (core out : Option Path) :
    Change CommandError Generator := do
  let config ← effectiveConfig environment globals core out
  outcome ((Generator.open? (← get) environment.home? config).mapError .failure)

/-! ### The commands -/

/-- Generates the output package and prints what was done. -/
def generate (environment : Environment) (globals : Globals) (core out : Option Path)
    (noExamples json : Bool) : Action := do
  let g ← openGenerator environment globals core out
  let result := g.run ⟨globals.dryRun, g.config.generation.writeExamples && !noExamples⟩ (← get)
  set result.disk
  let report ← outcome (result.outcome.mapError .failure)
  return { stdout :=
    if json then (reportValue report).pretty ++ "\n"
    else unlessQuiet globals (summary (!globals.noColor) report) }

/-- Prints the screens. -/
def discover (environment : Environment) (globals : Globals) (core : Option Path) (json : Bool) :
    Action := do
  let g ← openGenerator environment globals core none
  let screens ← outcome ((g.prepareAll.run (← get) g.project).1.mapError .failure)
  return { stdout :=
    if json then (Json.array (screens.map screenValue)).pretty ++ "\n"
    else unlines (screens.map (screenLine (!globals.noColor))) }

/-- Prints the kebab forms of names. -/
def kebab (environment : Environment) (globals : Globals) (names : List String) : Action := do
  let config ← effectiveConfig environment globals none none
  return { stdout := unlines (names.map config.naming.kebab) }

/-- Prints the capitalized forms of kebab names. -/
def pascal (names : List String) : Action :=
  return { stdout := unlines (names.map ScreenHooks.pascal) }

/-- Makes a configuration file. -/
def init (globals : Globals) (directory : Path) (force : Bool) : Action := do
  let path := directory.join ⟨Config.fileName⟩
  if ((← get).locate path).isOk && !force then throw (.configExists path)
  if globals.dryRun then
    return { stdout := unlessQuiet globals ("Would create config file at " ++ path.text ++ "\n") }
  ExceptT.adapt (fun _ => .configDirectory) (makeDirectories directory)
  let d ← get
  match d.filePlace path with
  | .error _ => throw .configFile
  | .ok place =>
    set (d.put place (.file (.text ({} : Config).text)))
    return { stdout := unlessQuiet globals ("Created config file at " ++ path.text ++ "\n") }

/-- Writes or prints a completion script. -/
def completions (globals : Globals) (shell : Shell) (directory : Option Path) (print : Bool) :
    Action := do
  if print then return { stdout := shell.script }
  match directory with
  | none => throw .noTarget
  | some directory =>
    let path := directory.join ⟨shell.scriptName⟩
    if globals.dryRun then
      return { stderr :=
        unlessQuiet globals ("Would write completion to " ++ path.text ++ "\n") }
    ExceptT.adapt (fun e => .failure (.file e)) (replaceFile path shell.script)
    return { stderr := unlessQuiet globals ("Wrote completion to " ++ path.text ++ "\n") }

/-- Does what is asked for. -/
def Invocation.execute (environment : Environment) (invocation : Invocation) : Action :=
  let globals := invocation.globals
  match invocation.request with
  | .generate core out noExamples json => generate environment globals core out noExamples json
  | .discover core json => discover environment globals core json
  | .kebab names => kebab environment globals names
  | .pascal names => pascal names
  | .init directory force => init globals directory force
  | .completions shell directory print => completions globals shell directory print

/-! ### The program -/

/-- What the program leaves behind. -/
structure Result where
  code : Nat
  printed : Printed
  disk : Disk

/-- What the program prints if there is no request, and its code. -/
def Stop.printed : Stop → Nat × Printed
  | help topic => (0, { stdout := helpText topic })
  | version => (0, { stdout := programName ++ " " ++ Command.version ++ "\n" })
  | usage => (2, { stderr := usageText })

/-- Runs the program. -/
def run (environment : Environment) (arguments : List String) (d : Disk) : Result :=
  match Invocation.read arguments with
  | .error stop => ⟨stop.printed.1, stop.printed.2, d⟩
  | .ok invocation =>
    match (invocation.execute environment).apply d with
    | (.ok printed, after) => ⟨0, printed, after⟩
    | (.error e, after) => ⟨1, { stderr := "Error: " ++ e.message ++ "\n" }, after⟩

theorem run_stop (environment : Environment) (arguments : List String) (d : Disk) (stop : Stop)
    (h : Invocation.read arguments = .error stop) : (run environment arguments d).disk = d := by
  simp [run, h]

end ScreenHooks.Command
