/-
The modules that gather the hook modules of a run.

The barrel re-exports the primary hook of every screen and the shared hooks.
Per screen there is a namespace module with its values and, if it exports
types, a type module; index modules list them.

* **`manifestEntries_length`** — every screen has two subpaths.
-/
import ScreenHooks.Hook.Module
import ScreenHooks.Output.Artifact
import ScreenHooks.Output.Layout

namespace ScreenHooks.Output

open Hook Text

/-- A screen whose hook module has been generated. -/
structure EmittedScreen where
  unit : Screen.Unit
  /-- The path of its hook module. -/
  module : Path
  /-- The values that the module exports. -/
  values : List String
  /-- The types that the module exports. -/
  types : List String

/-- The quoted specifier by which one generated module imports another. -/
def specifierLiteral (source target : Path) : String :=
  singleQuoted (Path.moduleSpecifier source target)

/-! ### The barrel -/

/-- The re-export of a screen's primary hook, if its module exports it. -/
def barrelLine? (layout : Layout) (screen : EmittedScreen) : Option String :=
  if screen.values.contains screen.unit.primaryHook then
    some (exportLine [screen.unit.primaryHook] (specifierLiteral layout.barrel screen.module))
  else none

/-- The root module of the package. -/
def barrel (layout : Layout) (screens : List EmittedScreen) : Artifact :=
  .generated layout.barrel <| endLines <|
    generatedHeader :: (screens.filterMap (barrelLine? layout) ++
      ["",
       "export * from " ++ specifierLiteral layout.barrel (layout.hooksModule commonModule) ++ ";",
       exportLine [contextHooksFactory]
         (specifierLiteral layout.barrel (layout.hooksModule contextHooksModule))])

/-! ### Namespace and type modules -/

/-- The module that re-exports the values of a screen. -/
def namespaceArtifact (layout : Layout) (screen : EmittedScreen) : Artifact :=
  let path := layout.namespaceModule screen.unit.kebab
  .generated path <| endLines
    [generatedHeader,
     if screen.values.isEmpty then "export \x7b\x7d;"
     else exportLine screen.values (specifierLiteral path screen.module)]

/-- The module that re-exports the types of a screen. -/
def typeArtifact (layout : Layout) (screen : EmittedScreen) : Artifact :=
  let path := layout.typeModule screen.unit.kebab
  .generated path <| endLines
    [generatedHeader, exportTypeLine screen.types (specifierLiteral path screen.module)]

/-- The line of an index module for one screen. -/
def indexLine (screen : EmittedScreen) : String :=
  "export * as " ++ screen.unit.name ++ " from './" ++ screen.unit.kebab ++ "';"

/-- The index of a directory with one module for each screen. -/
def indexArtifact (directory : Path) (screens : List EmittedScreen) : Artifact :=
  .generated (directory.child "index.ts") (endLines (generatedHeader :: screens.map indexLine))

/-- The screens that export types. -/
def typed (screens : List EmittedScreen) : List EmittedScreen :=
  screens.filter fun screen => !screen.types.isEmpty

/-- The type modules and their index; none if no screen exports types. -/
def typeArtifacts (layout : Layout) (screens : List EmittedScreen) : List Artifact :=
  match typed screens with
  | [] => []
  | screens => screens.map (typeArtifact layout) ++ [indexArtifact layout.typeDir screens]

/-- The entry point of the grouped modules. -/
def groupIndex (layout : Layout) (screens : List EmittedScreen) : Artifact :=
  .generated (layout.exportsDir.child "index.ts") <| endLines <|
    [generatedHeader, "export * as Screens from './screens';"] ++
      if (typed screens).isEmpty then [] else ["export * as Types from './types';"]

/-- All grouped modules, in the order in which they are written. -/
def groupedArtifacts (layout : Layout) (screens : List EmittedScreen) : List Artifact :=
  screens.map (namespaceArtifact layout) ++ [indexArtifact layout.namespaceDir screens] ++
    typeArtifacts layout screens ++ [groupIndex layout screens]

/-! ### Manifest entries -/

/-- The two subpaths of a screen: its module, and its types or else its module
again. -/
def screenEntries (layout : Layout) (screen : EmittedScreen) : List ManifestEntry :=
  [layout.entryOf ("./" ++ screen.unit.kebab) screen.module,
   layout.entryOf ("./" ++ screen.unit.kebab ++ "/types")
     (if screen.types.isEmpty then screen.module else layout.typeModule screen.unit.kebab)]

/-- The subpaths of all screens. -/
def manifestEntries (layout : Layout) (screens : List EmittedScreen) : List ManifestEntry :=
  screens.flatMap (screenEntries layout)

theorem manifestEntries_length (layout : Layout) (screens : List EmittedScreen) :
    (manifestEntries layout screens).length = 2 * screens.length := by
  induction screens with
  | nil => rfl
  | cons screen rest ih =>
    simp only [manifestEntries, List.flatMap_cons, List.length_append, List.length_cons] at ih ⊢
    rw [ih]
    simp [screenEntries]
    omega

end ScreenHooks.Output
