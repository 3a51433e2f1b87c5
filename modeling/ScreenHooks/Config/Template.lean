/-
The text of a configuration file.

Each part of the configuration is a section of the file; the utility hooks are
an array of tables at the end. Strings are quoted, and an array has one item in
each line.

* **`sectionText_nil`** — a section without pairs is its header.
-/
import ScreenHooks.Config.Basic
import ScreenHooks.Json.Printer

namespace ScreenHooks.Config

/-- A quoted string. -/
def quoted (text : String) : String := String.ofList (Json.quote text)

/-- An array with one item in each line. -/
def arrayText (items : List String) : String :=
  if items.isEmpty then "[]"
  else "[\n" ++ String.join (items.map fun item => "    " ++ item ++ ",\n") ++ "]"

/-- An array of strings. -/
def textsOf (items : List String) : String := arrayText (items.map quoted)

/-- A header with the pairs below it. -/
def sectionText (header : String) (pairs : List (String × String)) : String :=
  header ++ "\n" ++ String.join (pairs.map fun (key, value) => key ++ " = " ++ value ++ "\n")

/-- The section of the core package. -/
def coreText (core : CoreConfig) : String :=
  sectionText "[core]" [
    ("root", quoted core.root.text), ("package", quoted core.package),
    ("screens_barrel", quoted core.screensBarrel.text),
    ("implementation_pattern", quoted core.implementationPattern),
    ("declaration_pattern", quoted core.declarationPattern),
    ("docs_index", quoted core.docsIndex.text),
    ("docs_interface_kind", toString core.docsInterfaceKind)]

/-- The section of the output package. -/
def layoutText (layout : Output.Layout) : String :=
  sectionText "[output]" [
    ("root", quoted layout.root.text), ("source_dir", quoted layout.sourceDir.text),
    ("screens_dir", quoted layout.screensDir.text), ("hooks_dir", quoted layout.hooksDir.text),
    ("exports_dir", quoted layout.exportsDir.text), ("barrel", quoted layout.barrel.text),
    ("manifest", quoted layout.manifest.text), ("examples_dir", quoted layout.examplesDir.text),
    ("dist_dir", quoted layout.distDir), ("module_extension", quoted layout.moduleExtension)]

/-- The section of the naming rules. -/
def namingText (naming : Naming) : String :=
  sectionText "[naming]" [
    ("acronyms", arrayText (naming.acronyms.map fun (old, new) => textsOf [old, new])),
    ("reserved_suffix", quoted naming.reservedSuffix)]

/-- The section of what is generated. -/
def generationText (generation : GenerationConfig) : String :=
  sectionText "[generation]" [
    ("context_models", textsOf generation.contextModels),
    ("sentinel", quoted generation.sentinel),
    ("write_examples", if generation.writeExamples then "true" else "false")]

/-- The table of a utility hook. -/
def utilityHookText (hook : Hook.UtilityHook) : String :=
  sectionText "[[generation.utility_hooks]]" (
    [("method", quoted hook.method), ("hook", quoted hook.hook), ("module", quoted hook.module)] ++
    (hook.factory.map fun factory => ("factory", quoted factory)).toList ++
    [("types", textsOf hook.types)])

/-- The text of a configuration file. -/
def text (config : Config) : String :=
  String.intercalate "\n" ([coreText config.core, layoutText config.output,
    namingText config.naming, generationText config.generation] ++
    config.generation.utilityHooks.map utilityHookText)

theorem sectionText_nil (header : String) : sectionText header [] = header ++ "\n" := by
  simp [sectionText]

end ScreenHooks.Config
