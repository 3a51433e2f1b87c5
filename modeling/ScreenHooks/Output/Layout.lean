/-
Where the generated files go.

`Layout` names the directories of the output package, relative to its root;
every generated path is a function of it and of a screen's kebab name. The
compiler maps the source directory to the distribution directory, which is
what the targets in the package manifest follow.

* **`distTargets_pair`** — the two targets differ in their extension only.
-/
import ScreenHooks.Path.Relative

namespace ScreenHooks.Output

open Text

/-- The directories and files of the output package. -/
structure Layout where
  root : Path := ⟨"."⟩
  /-- The root of the compiled sources. -/
  sourceDir : Path := ⟨"src"⟩
  screensDir : Path := ⟨"src/screens"⟩
  hooksDir : Path := ⟨"src/hooks"⟩
  exportsDir : Path := ⟨"src/exports"⟩
  barrel : Path := ⟨"src/index.ts"⟩
  manifest : Path := ⟨"package.json"⟩
  examplesDir : Path := ⟨"docs/examples"⟩
  distDir : String := "./dist"
  moduleExtension : String := "tsx"

/-- A subpath of the package with the files it stands for. -/
structure ManifestEntry where
  subpath : String
  importTarget : String
  typesTarget : String
  deriving DecidableEq

namespace Layout

/-- The hook module of a screen. -/
def screenModule (layout : Layout) (kebab : String) : Path :=
  layout.screensDir.child (kebab ++ "." ++ layout.moduleExtension)

/-- A module of the hooks directory. -/
def hooksModule (layout : Layout) (name : String) : Path := layout.hooksDir.child (name ++ ".ts")

/-- The directory of the namespace modules. -/
def namespaceDir (layout : Layout) : Path := layout.exportsDir.child "screens"

/-- The directory of the type modules. -/
def typeDir (layout : Layout) : Path := layout.exportsDir.child "types"

/-- The module that re-exports the values of a screen. -/
def namespaceModule (layout : Layout) (kebab : String) : Path :=
  layout.namespaceDir.child (kebab ++ ".ts")

/-- The module that re-exports the types of a screen. -/
def typeModule (layout : Layout) (kebab : String) : Path := layout.typeDir.child (kebab ++ ".ts")

/-- The usage document of a screen. -/
def exampleDoc (layout : Layout) (kebab : String) : Path :=
  layout.examplesDir.child (kebab ++ ".md")

/-- The hooks directory as seen from a screen module. -/
def hooksSpecifier (layout : Layout) : String := Path.relative layout.screensDir layout.hooksDir

/-- The source file as the compiler sees it, without its extension. -/
def distStem (layout : Layout) (source : Path) : String :=
  String.intercalate "/"
    ((((source.strip? layout.sourceDir).getD source).dropExtension).components.map
      Path.Component.text)

/-- The compiled module and its declarations. -/
def distTargets (layout : Layout) (source : Path) : String × String :=
  let stem := trimEndOf layout.distDir '/' ++ "/" ++ layout.distStem source
  (stem ++ ".js", stem ++ ".d.ts")

/-- The manifest entry of a subpath that is compiled from `source`. -/
def entryOf (layout : Layout) (subpath : String) (source : Path) : ManifestEntry :=
  ⟨subpath, (layout.distTargets source).1, (layout.distTargets source).2⟩

/-- The entry of the package itself. -/
def rootEntry (layout : Layout) : ManifestEntry := layout.entryOf "." layout.barrel

theorem distTargets_pair (layout : Layout) (source : Path) :
    ∃ stem, layout.distTargets source = (stem ++ ".js", stem ++ ".d.ts") := ⟨_, rfl⟩

end Layout

end ScreenHooks.Output
