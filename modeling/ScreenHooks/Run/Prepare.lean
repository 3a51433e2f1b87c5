/-
Preparing screens.

A screen is prepared from its implementation file, which tells whether there
is a default export, and its declaration file, which yields its interfaces.
What goes wrong with one screen is kept as the outcome of that screen.

* **`attempt_inquiry`** — a kept failure does not end a computation.
-/
import ScreenHooks.Config.Basic
import ScreenHooks.Sdk.Discovery

namespace ScreenHooks.Run

open Sdk

/-- A screen that is ready to be written. -/
structure PreparedUnit where
  unit : Screen.Unit
  interfaces : Screen.Interfaces

/-- The outcome of preparing a screen: if it failed, the name of the screen and
the error. -/
abbrev Prepared := Except (String × RunError) PreparedUnit

/-- The outcome of a computation that is not given up when it fails. -/
def attempt {α : Type} (x : Reading α) : Reading (Except Failure α) := fun scope =>
  ExceptT.mk (x.inquiry scope >>= fun outcome => pure (.ok outcome))

/-- Loads a file that belongs to a screen. -/
def companion (unit : String) (role : CompanionRole) (path : Path) :
    ExceptT RunError Reading Script.Module := do
  match ← attempt (Project.load path) with
  | .ok (some module) => return module
  | .ok none => throw (.missingCompanion unit role path)
  | .error e => throw (.parse path e.fullMessage)

/-- The methods that the class of a screen marks. -/
def markedOf (resolved : Resolved) : Reading (List String) := do
  match resolved.localName, ← attempt (Project.load resolved.module) with
  | some name, .ok (some module) => return (module.markedMethods.lookup name).getD []
  | _, _ => return []

/-- Prepares a screen. -/
def prepare (core : CoreConfig) (allow : Screen.AllowList) (found : FoundScreen) :
    ExceptT RunError Reading PreparedUnit := do
  let scope ← read
  let implementation ← companion found.name .implementation
    (scope.path (core.implementationPath found.kebab))
  let declarations := scope.path (core.declarationPath found.kebab)
  let _ ← companion found.name .declaration declarations
  let unit : Screen.Unit := ⟨found.name, found.kebab, implementation.hasDefaultExport⟩
  match ← attempt (extract declarations unit allow) with
  | .error e => throw (.parse declarations e.fullMessage)
  | .ok interfaces =>
    let marked ← markedOf found.resolved
    return ⟨unit, { interfaces with utilityMethods := interfaces.utilityMethods.insertAll marked }⟩

/-- Finds the screens of the core package and prepares each. -/
def prepareAll (config : Config) (allow : Screen.AllowList) : Reading (List Prepared) := do
  let found ← discover config.naming ((← read).path config.core.screensBarrel)
  found.mapM fun screen => do
    match ← (prepare config.core allow screen).run with
    | .ok unit => return .ok unit
    | .error e => return .error (screen.name, e)

theorem attempt_inquiry {α : Type} (x : Reading α) (scope : Scope) :
    (attempt x).inquiry scope = x.inquiry scope >>= fun outcome => pure (.ok outcome) := rfl

end ScreenHooks.Run
