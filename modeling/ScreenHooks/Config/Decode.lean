/-
Configurations from values.

Scalars convert into each other where their texts allow it: a number or a truth
value may stand for a text, a text for a number or a truth value. A record is a
table, or an array that gives the fields in order; what it does not give has
the default, and what no field is called is passed over.

* **`decode_empty`** — the empty table is the default configuration.
-/
import ScreenHooks.Config.Basic
import ScreenHooks.Decimal.Text
import ScreenHooks.Json.Number
import ScreenHooks.Text.Case

namespace ScreenHooks.Config

open Text

/-! ### Scalars -/

/-- A text; other scalars stand for their texts. -/
def asText? : Json → Option String
  | .string text => some text
  | .bool value => some (if value then "true" else "false")
  | .number (.integer n) => some (String.ofList (Json.textOfInt n))
  | .number (.double f) => some (String.ofList (Decimal.textOf f))
  | _ => none

/-- A path. -/
def asPath? (value : Json) : Option Path := (asText? value).map Path.mk

/-- The truth value of a text that is no number. -/
def flagOfWord? (word : String) : Option Bool :=
  if word ∈ ["true", "on", "yes"] then some true
  else if word ∈ ["false", "off", "no"] then some false
  else none

/-- A truth value; a number is true unless it is zero. -/
def asFlag? : Json → Option Bool
  | .bool value => some value
  | .number (.integer n) => some (n ≠ 0)
  | .number (.double f) => some (f != 0.0)
  | .string text =>
    if text = "1" then some true else if text = "0" then some false
    else flagOfWord? (toLower text)
  | _ => none

/-- A natural number of 64 bits from decimal digits. -/
def countOfText? (text : String) : Option Nat :=
  let digits := match text.toList with
    | '+' :: r => r
    | r => r
  (Decimal.natural? digits).filter (· < UInt64.size)

/-- A natural number of 64 bits; a double is rounded into the range. -/
def asCount? : Json → Option Nat
  | .number (.integer n) => if 0 ≤ n then some n.toNat else none
  -- negative numbers become zero, large ones the greatest
  | .number (.double f) => some f.round.toUInt64.toNat
  | .bool value => some value.toNat
  | .string text =>
    match flagOfWord? (toLower text) with
    | some value => some value.toNat
    | none => countOfText? text
  | _ => none

/-! ### Lists and records -/

/-- A list. -/
def asList? {α : Type} (decode : Json → Option α) : Json → Option (List α)
  | .array items => items.mapM decode
  | _ => none

/-- A value that may be null. -/
def asOption? {α : Type} (decode : Json → Option α) : Json → Option (Option α)
  | .null => some none
  | value => (decode value).map some

/-- Two texts; further items of the array are passed over. -/
def asPair? : Json → Option (String × String)
  | .array (first :: second :: _) => do return (← asText? first, ← asText? second)
  | _ => none

/-- The fields of a record: named by a table, or given in order by an array. -/
def fields? (names : List String) : Json → Option (List (String × Json))
  | .object members => some members
  | .array items => some (names.zip items)
  | _ => none

/-- A field of a record. -/
def field? {α : Type} (fields : List (String × Json)) (name : String) (decode : Json → Option α) :
    Option α :=
  (fields.lookup name).bind decode

/-- A field of a record that has a default. -/
def fieldOr? {α : Type} (fields : List (String × Json)) (name : String)
    (decode : Json → Option α) (default : α) : Option α :=
  match fields.lookup name with
  | some value => decode value
  | none => some default

/-! ### The parts of the configuration -/

/-- The files of the core package. -/
def decodeCore? (value : Json) : Option CoreConfig := do
  let fields ← fields? ["root", "package", "screens_barrel", "implementation_pattern",
    "declaration_pattern", "docs_index", "docs_interface_kind"] value
  let base : CoreConfig := {}
  return {
    root := ← fieldOr? fields "root" asPath? base.root
    package := ← fieldOr? fields "package" asText? base.package
    screensBarrel := ← fieldOr? fields "screens_barrel" asPath? base.screensBarrel
    implementationPattern :=
      ← fieldOr? fields "implementation_pattern" asText? base.implementationPattern
    declarationPattern := ← fieldOr? fields "declaration_pattern" asText? base.declarationPattern
    docsIndex := ← fieldOr? fields "docs_index" asPath? base.docsIndex
    docsInterfaceKind := ← fieldOr? fields "docs_interface_kind" asCount? base.docsInterfaceKind }

/-- The layout of the output package. -/
def decodeLayout? (value : Json) : Option Output.Layout := do
  let fields ← fields? ["root", "source_dir", "screens_dir", "hooks_dir", "exports_dir", "barrel",
    "manifest", "examples_dir", "dist_dir", "module_extension"] value
  let base : Output.Layout := {}
  return {
    root := ← fieldOr? fields "root" asPath? base.root
    sourceDir := ← fieldOr? fields "source_dir" asPath? base.sourceDir
    screensDir := ← fieldOr? fields "screens_dir" asPath? base.screensDir
    hooksDir := ← fieldOr? fields "hooks_dir" asPath? base.hooksDir
    exportsDir := ← fieldOr? fields "exports_dir" asPath? base.exportsDir
    barrel := ← fieldOr? fields "barrel" asPath? base.barrel
    manifest := ← fieldOr? fields "manifest" asPath? base.manifest
    examplesDir := ← fieldOr? fields "examples_dir" asPath? base.examplesDir
    distDir := ← fieldOr? fields "dist_dir" asText? base.distDir
    moduleExtension := ← fieldOr? fields "module_extension" asText? base.moduleExtension }

/-- The naming rules. -/
def decodeNaming? (value : Json) : Option Naming := do
  let fields ← fields? ["acronyms", "reserved_suffix"] value
  let base : Naming := {}
  return {
    acronyms := ← fieldOr? fields "acronyms" (asList? asPair?) base.acronyms
    reservedSuffix := ← fieldOr? fields "reserved_suffix" asText? base.reservedSuffix }

/-- A utility hook. -/
def decodeUtilityHook? (value : Json) : Option Hook.UtilityHook := do
  let fields ← fields? ["method", "hook", "module", "factory", "types"] value
  return {
    method := ← field? fields "method" asText?
    hook := ← field? fields "hook" asText?
    module := ← field? fields "module" asText?
    factory := ← fieldOr? fields "factory" (asOption? asText?) none
    types := ← fieldOr? fields "types" (asList? asText?) [] }

/-- What is generated. -/
def decodeGeneration? (value : Json) : Option GenerationConfig := do
  let fields ← fields? ["context_models", "sentinel", "write_examples", "utility_hooks"] value
  let base : GenerationConfig := {}
  return {
    contextModels := ← fieldOr? fields "context_models" (asList? asText?) base.contextModels
    sentinel := ← fieldOr? fields "sentinel" asText? base.sentinel
    writeExamples := ← fieldOr? fields "write_examples" asFlag? base.writeExamples
    utilityHooks :=
      ← fieldOr? fields "utility_hooks" (asList? decodeUtilityHook?) base.utilityHooks }

/-- The configuration that a value gives. -/
def decode? (value : Json) : Option Config := do
  let fields ← fields? ["core", "output", "naming", "generation"] value
  let base : Config := {}
  return {
    core := ← fieldOr? fields "core" decodeCore? base.core
    output := ← fieldOr? fields "output" decodeLayout? base.output
    naming := ← fieldOr? fields "naming" decodeNaming? base.naming
    generation := ← fieldOr? fields "generation" decodeGeneration? base.generation }

theorem decode_empty : decode? (.object []) = some {} := rfl

end ScreenHooks.Config
