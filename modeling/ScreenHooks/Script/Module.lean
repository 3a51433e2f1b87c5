/-
What a script module exports, declares and imports.

Each statement contributes exports, local names, imports, interfaces and
marked methods; a module collects them in the order of the statements. A local
name keeps its first kind; of imports and marked methods the newest counts.

* **`ofStatements_exports`** — the exports of a module are those of its
  statements, in their order.
-/
import ScreenHooks.Names
import ScreenHooks.Path.Basic
import ScreenHooks.Script.Scan
import ScreenHooks.Script.Statement
import ScreenHooks.Table

namespace ScreenHooks.Script

/-! ### Parts of a module -/

/-- An entry of a module's export surface. -/
inductive Export where
  | declaration (name : String) (kind : DeclarationKind)
  /-- The default export: the name that it has in the module, if any, and its
  kind, if the statement shows it. -/
  | byDefault (localName : Option String) (kind : Option DeclarationKind)
  | ofLocal (localName exported : String) (typeOnly : Bool)
  | reexport (imported exported source : String) (typeOnly : Bool)
  | star (source : String)
  | space (exported source : String)
  deriving DecidableEq

/-- The name that importers see, if there is exactly one. -/
def Export.name? : Export → Option String
  | declaration name _ => some name
  | byDefault .. => some "default"
  | ofLocal _ exported _ | reexport _ exported _ _ | space exported _ => some exported
  | star _ => none

/-- Whether an export exists for types only. -/
def Export.isTypeOnly : Export → Bool
  | declaration _ kind => kind.isTypeOnly
  | byDefault _ kind => (kind.map DeclarationKind.isTypeOnly).getD false
  | ofLocal _ _ typeOnly | reexport _ _ _ typeOnly => typeOnly
  | star _ | space .. => false

/-- Whether an export is a default export of its own. -/
def Export.isDefault : Export → Bool
  | byDefault .. => true
  | _ => false

/-- Where an imported name comes from: the name there is `default` for the
default export and `*` for all of a module. -/
structure Origin where
  source : String
  imported : String
  deriving DecidableEq

/-- An interface with its methods. -/
structure Interface where
  name : String
  exported : Bool
  methods : List Method
  deriving DecidableEq

/-! ### What a statement contributes -/

namespace Statement

/-- The declaration of a statement, and whether it is exported. -/
def declared? : Statement → Option (Declaration × Bool)
  | declaration d => some (d, false)
  | exported d | exportedDefault d => some (d, true)
  | _ => none

/-- The exports of a statement. -/
def exports : Statement → List Export
  | exported d => d.names.map (.declaration · d.kind)
  | exportedDefault d => [.byDefault d.names.head? (some d.kind)]
  | defaultName name => [.byDefault (some name) none]
  | defaultValue kind => [.byDefault none (some kind)]
  | exportList specifiers (some source) typeOnly =>
    specifiers.map fun s => .reexport s.name s.newName source (typeOnly || s.typeOnly)
  | exportList specifiers none typeOnly =>
    specifiers.map fun s => .ofLocal s.name s.newName (typeOnly || s.typeOnly)
  | exportStar source | exportTypeStar source => [.star source]
  | exportSpace name source | exportTypeSpace name source => [.space name source]
  | _ => []

/-- The names that a statement declares, with their kinds. -/
def locals (s : Statement) : List (String × DeclarationKind) :=
  match s.declared? with
  | some (d, _) => d.names.map (·, d.kind)
  | none => []

/-- The names that a statement imports, with their origins. -/
def importedNames : Statement → List (String × Origin)
  | imports specifiers source => specifiers.map fun s => (s.newName, ⟨source, s.name⟩)
  | _ => []

/-- The interface that a statement declares. -/
def interface? (s : Statement) : Option Interface :=
  match s.declared? with
  | some (.interfaceType name methods, isExported) => some ⟨name, isExported, methods⟩
  | _ => none

/-- The marked methods of the class that a statement declares, if there are
any. -/
def marked? (s : Statement) : Option (String × List String) :=
  match s.declared? with
  | some (.classType name marked, _) => if marked.isEmpty then none else some (name, marked)
  | _ => none

/-- Whether the grammar has no place for a statement. -/
def isError : Statement → Bool
  | exportTypeStar _ | exportTypeSpace .. | malformed => true
  | _ => false

end Statement

/-! ### Modules -/

/-- What is known of a script module. -/
structure Module where
  exports : List Export := []
  locals : List (String × DeclarationKind) := []
  imports : List (String × Origin) := []
  interfaces : List Interface := []
  /-- The methods that comments mark, by class. -/
  markedMethods : List (String × List String) := []
  hasErrors : Bool := false
  deriving DecidableEq

namespace Module

/-- The module with the given statements. -/
def ofStatements (statements : List Statement) : Module where
  exports := statements.flatMap Statement.exports
  locals := Table.oldest (statements.flatMap Statement.locals)
  imports := Table.newest (statements.flatMap Statement.importedNames)
  interfaces := statements.filterMap Statement.interface?
  markedMethods := Table.newest (statements.filterMap Statement.marked?)
  hasErrors := statements.any Statement.isError

/-- Reads a script. Brackets without a partner are errors. -/
def read (dialect : Dialect) (source : String) : Module :=
  let built := Forest.ofTokens (scan dialect source.toList)
  let module := ofStatements (statements built.forest)
  { module with hasErrors := module.hasErrors || built.stray != 0 }

/-- The dialect of the file at a path. -/
def dialectOf (path : Path) : Dialect := if path.extension? = some "tsx" then .markup else .plain

/-- Whether there is a default export. -/
def hasDefaultExport (m : Module) : Bool := m.exports.any (·.name? == some "default")

/-- The first interface of a name. -/
def interface? (m : Module) (name : String) : Option Interface :=
  m.interfaces.find? (·.name == name)

/-- The names of the exported values, default exports left out. -/
def valueExports (m : Module) : Names :=
  Names.ofList <| m.exports.filterMap fun e =>
    if e.isTypeOnly || e.isDefault then none else e.name?

/-! ### Laws -/

theorem ofStatements_exports (statements : List Statement) :
    (ofStatements statements).exports = statements.flatMap Statement.exports := rfl

end Module

end ScreenHooks.Script
