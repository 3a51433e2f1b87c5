/-
The modules of a core package, each read at most once.

A project has an absolute root and remembers what reading a module has shown,
also that there is none. A module that cannot be read is not remembered.

* **`load_remembered`** — a remembered module is not read again.
-/
import ScreenHooks.Sdk.Exports
import ScreenHooks.Sdk.Inquiry

namespace ScreenHooks.Sdk

open Script

/-- A core package and what is known of its modules. -/
structure Project where
  root : Path
  known : List (Path × Option Module) := []

/-- What a reading knows from the start: the root of the package, and a bound
for the modules that can be expanded inside each other. -/
structure Scope where
  root : Path
  fuel : Nat

/-- A path below the root. -/
def Scope.path (scope : Scope) (below : Path) : Path := scope.root.join below

/-- A computation that reads modules and may fail. -/
abbrev Reading := ReaderT Scope (ExceptT Failure Inquiry)

/-- The questions of a reading, which end with its outcome. -/
def Reading.inquiry {α : Type} (x : Reading α) (scope : Scope) : Inquiry (Except Failure α) :=
  ExceptT.run (ReaderT.run x scope)

/-- Answers an inquiry from what the project remembers and from the disk, and
remembers what is new. A module that cannot be read is not remembered. -/
def Inquiry.answer {α : Type} (d : Disk) : Inquiry α → Project → α × Project
  | done result, p => (result, p)
  | askFile path next, p => (next (d.isFile path)).answer d p
  | askModule key next, p =>
    match p.known.lookup key with
    | some found => (next (.ok found)).answer d p
    | none =>
      match readModule d key with
      | .ok found => (next (.ok found)).answer d { p with known := Table.put p.known key found }
      | .error e => (next (.error e)).answer d p

namespace Project

/-- The project with the given root, which has to exist. -/
def open? (d : Disk) (root : Path) : Except Failure Project :=
  match d.canonical root with
  | .ok path => .ok { root := path }
  | .error cause => .error (.file ⟨.openRoot, root, cause⟩)

/-- A path below the root. -/
def path (p : Project) (below : Path) : Path := p.root.join below

/-- What a reading of the project on a disk knows from the start. A file has at
most four paths in normal form: absolute or not, with or without a climb. -/
def scope (d : Disk) (p : Project) : Scope := ⟨p.root, 4 * d.files.length + p.known.length + 1⟩

/-- Whether a path names a file. -/
def isFile (path : Path) : Reading Bool := fun _ =>
  ExceptT.mk (.askFile path fun found => .done (.ok found))

/-- The module at a path. -/
def load (path : Path) : Reading (Option Module) := fun _ =>
  ExceptT.mk (.askModule path.normalize .done)

/-- The modules of a project. -/
def modules (root : Path) : Modules Reading := ⟨root, isFile, load⟩

/-- The file that a specifier in a module leads to. -/
def specifier? (d : Disk) (p : Project) (importer : Path) (specifier : String) : Option Path :=
  (specifierPaths p.root importer specifier).find? d.isFile

/-- The names that the module at a path exports. -/
def exportedNames (path : Path) (typesToo : Bool) : Reading Names := do
  let scope ← read
  Sdk.exportedNames (modules scope.root) scope.fuel path typesToo

/-- The declaration of a name that the module at a path exports. -/
def resolveExport (path : Path) (name : String) : Reading (Option Resolved) := do
  Sdk.resolveExport (modules (← read).root) path name

end Project

/-- The outcome of a reading on a project and a disk, and the project after
it. -/
def Reading.run {α : Type} (x : Reading α) (d : Disk) (p : Project) :
    Except Failure α × Project :=
  (x.inquiry (p.scope d)).answer d p

/-! ### Laws -/

theorem Project.load_remembered (d : Disk) (p : Project) (path : Path) (found : Option Module)
    (h : p.known.lookup path.normalize = some found) :
    (load path).run d p = (.ok found, p) := by
  simp [Reading.run, Reading.inquiry, load, ReaderT.run, ExceptT.run, ExceptT.mk, Inquiry.answer, h]

end ScreenHooks.Sdk
