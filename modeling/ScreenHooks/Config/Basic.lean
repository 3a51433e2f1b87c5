/-
The configuration of a run.

Four parts: where the core package lies and how its files are named, the
layout of the output package, the naming rules, and what is generated. Every
field has a default.
-/
import ScreenHooks.Hook.Settings
import ScreenHooks.Output.Layout
import ScreenHooks.Screen.AllowList

namespace ScreenHooks

open Text

/-- The files of the core package, relative to its root. -/
structure CoreConfig where
  root : Path := ⟨"../core"⟩
  /-- The import specifier of the package. -/
  package : String := "@acme/auth-core"
  screensBarrel : Path := ⟨"src/screens/index.ts"⟩
  implementationPattern : String := "src/screens/\x7bkebab\x7d/index.ts"
  declarationPattern : String := "interfaces/screens/\x7bkebab\x7d.ts"
  docsIndex : Path := ⟨"docs/index.json"⟩
  docsInterfaceKind : Nat := Screen.defaultInterfaceKind

/-- What is generated. -/
structure GenerationConfig where
  contextModels : List String := Hook.defaultContextModels
  sentinel : String := Hook.defaultSentinel
  writeExamples : Bool := true
  utilityHooks : List Hook.UtilityHook := [.resend]

/-- The configuration of a run. -/
structure Config where
  core : CoreConfig := {}
  output : Output.Layout := {}
  naming : Naming := {}
  generation : GenerationConfig := {}

/-- What a pattern says instead of the kebab name. -/
def kebabPlaceholder : String := "\x7bkebab\x7d"

namespace CoreConfig

/-- The implementation file of a screen. -/
def implementationPath (core : CoreConfig) (kebab : String) : Path :=
  ⟨replaceAll core.implementationPattern kebabPlaceholder kebab⟩

/-- The declaration file of a screen. -/
def declarationPath (core : CoreConfig) (kebab : String) : Path :=
  ⟨replaceAll core.declarationPattern kebabPlaceholder kebab⟩

end CoreConfig

/-- A path whose leading `~` stands for the home directory. -/
def expandHome (home : Option String) (path : Path) : Path :=
  match path.text.toList, home with
  | ['~'], some dir => ⟨dir⟩
  | '~' :: '/' :: r, some dir => ⟨dir ++ String.ofList ('/' :: r)⟩
  | _, _ => path

namespace Config

/-- The settings of the generated modules. -/
def settings (config : Config) : Hook.Settings where
  package := config.core.package
  naming := config.naming
  contextModels := config.generation.contextModels
  sentinel := config.generation.sentinel
  hooksSpecifier := config.output.hooksSpecifier
  utilityHooks := config.generation.utilityHooks

end Config

end ScreenHooks
