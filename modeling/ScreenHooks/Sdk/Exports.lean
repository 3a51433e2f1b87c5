/-
Following exports from module to module.

Modules are reached through `Modules`: a test for files and a reader of
modules by the normal form of their path, both of which may have effects. The
list of a module's exported names expands its star exports in place; the
declaration behind a name is found by following specifiers, at most `maxDepth`
of them in a row, and never through the same module and name twice.

* **`names_zero`**, **`follow_zero`** — what is found without looking.
-/
import ScreenHooks.Script.Module

namespace ScreenHooks.Sdk

open Script

/-! ### Specifiers -/

/-- What may be added to the path of a specifier, in the order of preference. -/
def probes : List String := [".ts", ".tsx", ".d.ts", "/index.ts", "/index.tsx", "/index.d.ts"]

/-- Whether a specifier is relative. -/
def isRelative (specifier : String) : Bool :=
  Text.startsWith specifier "./" || Text.startsWith specifier "../"

/-- The normal form of the path that a specifier in the importing module
spells. -/
def specifierBase (root importer : Path) (specifier : String) : Path :=
  ((importer.parent?.getD root).join ⟨specifier⟩).normalize

/-- The paths that a specifier may stand for, in the order of preference. -/
def specifierPaths (root importer : Path) (specifier : String) : List Path :=
  if isRelative specifier then
    let base := specifierBase root importer specifier
    base :: probes.map fun probe => ⟨base.text ++ probe⟩
  else []

/-! ### Modules -/

/-- How the modules of a project are reached. -/
structure Modules (m : Type → Type) where
  root : Path
  isFile : Path → m Bool
  module? : Path → m (Option Module)

/-- The file that a specifier leads to: the first of its paths that names one. -/
def Modules.target? {m : Type → Type} [Monad m] (modules : Modules m) (importer : Path)
    (specifier : String) : m (Option Path) :=
  (specifierPaths modules.root importer specifier).findM? modules.isFile

/-! ### Exported names -/

/-- Adds the names that the module at a path exports. `onPath` holds the
modules that are being expanded, `fuel` bounds how deep star exports go. -/
def namesFrom {m : Type → Type} [Monad m] (modules : Modules m) (typesToo : Bool) :
    Nat → List Path → Names → Path → m Names
  | 0, _, names, _ => pure names
  | fuel + 1, onPath, names, path => do
    let key := path.normalize
    -- a cycle of star exports adds nothing
    if key ∈ onPath then return names
    match ← modules.module? key with
    | none => return names
    | some module => module.exports.foldlM (fun names item =>
      if item.isTypeOnly && !typesToo then pure names
      else match item with
        | .star source => do
          match ← modules.target? key source with
          | some target => namesFrom modules typesToo fuel (key :: onPath) names target
          | none => pure names
        | .byDefault .. => pure names
        | item => pure (names.insertAll item.name?.toList)) names

/-- The names that the module at a path exports, in the order of declaration,
star exports expanded in place. -/
def exportedNames {m : Type → Type} [Monad m] (modules : Modules m) (fuel : Nat) (path : Path)
    (typesToo : Bool) : m Names :=
  namesFrom modules typesToo fuel [] .empty path

/-! ### Declarations behind names -/

/-- Where an exported name is declared. -/
structure Resolved where
  module : Path
  /-- The name of the declaration in its module, if it has one. -/
  localName : Option String
  kind : DeclarationKind
  deriving DecidableEq

/-- Where the search for a name goes on. -/
inductive Lead where
  | declared (localName : Option String) (kind : DeclarationKind)
  | elsewhere (source imported : String)
  | nowhere
  deriving DecidableEq

/-- Whether an export item decides about a name by itself. -/
def decides (name : String) : Export → Bool
  | .star _ | .space .. => false
  | item => item.name? == some name

/-- Where a local name of a module leads. -/
def localLead (module : Module) (name : String) : Lead :=
  match module.locals.lookup name with
  | some kind => .declared (some name) kind
  | none =>
    match module.imports.lookup name with
    | some origin =>
      if origin.imported = "*" then .nowhere else .elsewhere origin.source origin.imported
    | none => .nowhere

/-- Where an export item leads. -/
def itemLead (module : Module) : Export → Lead
  | .declaration name kind => .declared (some name) kind
  | .byDefault localName (some kind) => .declared localName kind
  | .byDefault (some name) none => localLead module name
  | .byDefault none none => .nowhere
  | .ofLocal name _ _ => localLead module name
  | .reexport imported _ source _ => .elsewhere source imported
  | .star _ | .space .. => .nowhere

/-- Where the items of a module that decide about a name lead, if there are
any: the first one counts. -/
def explicitLead? (module : Module) (name : String) : Option Lead :=
  (module.exports.find? (decides name)).map (itemLead module)

/-- The sources of the star exports of a module, in their order. A default
export never comes through a star. -/
def starSources (module : Module) (name : String) : List String :=
  if name = "default" then []
  else module.exports.filterMap fun item => match item with
    | .star source => some source
    | _ => none

/-- The most specifiers in a row that the search follows. -/
def maxDepth : Nat := 16

/-- The modules and names that a search has been through. -/
abbrev Visited := List (Path × String)

/-- The search for the declaration of a name, with what it has been through.
`fuel` is one more than the specifiers that it may still follow. -/
def follow {m : Type → Type} [Monad m] (modules : Modules m) :
    Nat → Path → String → Visited → m (Option Resolved × Visited)
  | 0, _, _, visited => pure (none, visited)
  | fuel + 1, path, name, visited => do
    let key := path.normalize
    -- a cycle of specifiers leads nowhere
    if (key, name) ∈ visited then return (none, visited)
    let visited := (key, name) :: visited
    match ← modules.module? key with
    | none => return (none, visited)
    | some module =>
      match explicitLead? module name with
      | some (.declared localName kind) => return (some ⟨key, localName, kind⟩, visited)
      | some (.elsewhere source imported) =>
        match ← modules.target? key source with
        | some target => follow modules fuel target imported visited
        | none => return (none, visited)
      | some .nowhere => return (none, visited)
      -- no item decides: the first star that knows the name does
      | none => (starSources module name).foldlM (fun found source =>
        if found.1.isSome then pure found
        else do
          match ← modules.target? key source with
          | some target => follow modules fuel target name found.2
          | none => pure found) (none, visited)

/-- The declaration of a name that the module at a path exports. -/
def resolveExport {m : Type → Type} [Monad m] (modules : Modules m) (path : Path) (name : String) :
    m (Option Resolved) := do
  return (← follow modules (maxDepth + 1) path name []).1

/-! ### Laws -/

theorem names_zero {m : Type → Type} [Monad m] (modules : Modules m) (typesToo : Bool)
    (onPath : List Path) (names : Names) (path : Path) :
    namesFrom modules typesToo 0 onPath names path = pure names := rfl

theorem follow_zero {m : Type → Type} [Monad m] (modules : Modules m) (path : Path)
    (name : String) (visited : Visited) :
    follow modules 0 path name visited = pure (none, visited) := rfl

end ScreenHooks.Sdk
