/-
The hook module of one screen.

`Module.of` settles what the module of a screen imports, defines and exports;
`Module.lines` writes it in a fixed order: imports, the lazy instance, the
primary hook, the shared context hooks, the accessors of the screen's own
models, a wrapper for each method, the utility hooks, and the published types.

* **`typeImports_not_class`** — the class is imported as a value only.
-/
import ScreenHooks.Hook.Lines
import ScreenHooks.Hook.Settings
import ScreenHooks.TypeText

namespace ScreenHooks.Hook

open Text

/-- The module of the shared accessor factory. -/
def contextHooksModule : String := "context-hooks"

/-- The module of the resend helper, kept once authored. -/
def utilityModule : String := "utility"

/-- The module of further shared hooks, kept once authored. -/
def commonModule : String := "common"

/-- The factory that `contextHooksModule` exports. -/
def contextHooksFactory : String := "createContextHooks"

/-! ### Contents -/

/-- An accessor of one of the screen's own models. -/
structure Accessor where
  hook : String
  model : String
  type : Option String
  deriving DecidableEq

/-- A function that calls a method of the screen. -/
structure Wrapper where
  name : String
  method : Script.Method
  deriving DecidableEq

/-- A utility hook, with the method it stands for and its module's specifier. -/
structure BoundHook where
  method : String
  hook : UtilityHook
  specifier : String
  deriving DecidableEq

/-- The contents of a hook module. -/
structure Module where
  unit : Screen.Unit
  /-- The specifier of the screen's module in the core package. -/
  coreSpecifier : String
  /-- The type of the instance. -/
  instanceType : String
  typeImports : Names
  contextSpecifier : String
  sharedHooks : List String
  accessors : List Accessor
  wrappers : List Wrapper
  hooks : List BoundHook
  /-- The types that the module re-exports. -/
  typeExports : List String

/-- The specialized interface of a model, if it is published. -/
def specialized? (interfaces : Screen.Interfaces) (unit : Screen.Unit) (model : String) :
    Option String :=
  let name := model ++ "MembersOn" ++ unit.name
  if interfaces.published.contains name then some name else none

/-- The types that the module needs: the members interface, the specialized
interfaces, and those that the parameters of wrapped methods mention. -/
def neededTypes (settings : Settings) (unit : Screen.Unit) (interfaces : Screen.Interfaces) :
    List String :=
  (if interfaces.membersFound then [unit.membersInterface] else []) ++
    (specialized? interfaces unit "Screen").toList ++
    (specialized? interfaces unit "Transaction").toList ++
    (wrapped settings interfaces).flatMap fun method =>
      method.parameters.flatMap fun parameter => TypeText.mentions parameter.type

/-- The accessor of a model if it is configured. -/
def accessor? (settings : Settings) (model : String) (type : Option String) : Option Accessor :=
  if settings.contextModels.contains model then some ⟨accessorName model, model, type⟩ else none

/-- The module of a screen. -/
def Module.of (settings : Settings) (unit : Screen.Unit) (interfaces : Screen.Interfaces) :
    Module where
  unit := unit
  coreSpecifier := settings.coreSubpath unit
  instanceType := if interfaces.membersFound then unit.membersInterface else unit.name
  typeImports := (Names.ofList (neededTypes settings unit interfaces)).erase unit.name
  contextSpecifier := settings.hooksModule contextHooksModule
  sharedHooks := settings.sharedModels.map accessorName
  accessors :=
    (accessor? settings "screen" (specialized? interfaces unit "Screen")).toList ++
      (accessor? settings "transaction" (specialized? interfaces unit "Transaction")).toList
  wrappers := (wrapped settings interfaces).map fun method =>
    ⟨settings.naming.escape method.name, method⟩
  hooks := (hooked settings interfaces).map fun (method, hook) =>
    ⟨method.name, hook, settings.utilitySpecifier hook⟩
  typeExports := interfaces.published.toList

/-! ### Lines -/

/-- A section is set off by a blank line and a comment; one without lines is
left out. -/
def titled (title : String) : List String → List String
  | [] => []
  | lines => "" :: ("// " ++ title) :: lines

/-- The import of a factory together with the types of its hook. -/
def BoundHook.factoryImport? (bound : BoundHook) : Option String :=
  bound.hook.factory.map fun factory =>
    importLine (factory :: bound.hook.types.map ("type " ++ ·)) (singleQuoted bound.specifier)

/-- The lines that define or re-export a utility hook. -/
def BoundHook.lines (bound : BoundHook) : List String :=
  match bound.hook.factory with
  | some factory =>
    -- without a type the options are those that the factory takes
    let options := bound.hook.types.head?.getD ("Parameters<typeof " ++ factory ++ ">[1]")
    let returns := (bound.hook.types[1]?.map (": " ++ ·)).getD ""
    ["export const " ++ bound.hook.hook ++ " = (options?: " ++ options ++ ")" ++ returns ++ " =>",
     "  " ++ factory ++ "((opts) => getInstance()." ++ bound.method ++ "(opts), options);"]
  | none =>
    exportLine [bound.hook.hook] (singleQuoted bound.specifier) ::
      if bound.hook.types.isEmpty then []
      else [exportTypeLine bound.hook.types (singleQuoted bound.specifier)]

/-- A parameter as it is declared in a wrapper. -/
def parameterText (parameter : Script.Parameter) : String :=
  parameter.name ++ (if parameter.optional then "?" else "") ++ ": " ++ parameter.type

/-- The line of a wrapper. -/
def Wrapper.line (wrapper : Wrapper) : String :=
  "export const " ++ wrapper.name ++ " = (" ++
    String.intercalate ", " (wrapper.method.parameters.map parameterText) ++
    ") => getInstance()." ++ wrapper.method.name ++ "(" ++
    String.intercalate ", " (wrapper.method.parameters.map (·.name)) ++ ");"

/-- The line of an accessor; without a type its type is inferred. -/
def Accessor.line (accessor : Accessor) : String :=
  "export const " ++ accessor.hook ++ " = ()" ++
    ((accessor.type.map (": " ++ ·)).getD "") ++ " => useMemo(() => getInstance()." ++
    accessor.model ++ ", []);"

namespace Module

/-- The header and the imports. -/
def importLines (module : Module) : List String :=
  let literal := singleQuoted module.coreSpecifier
  [generatedHeader,
   "// Hooks for the " ++ module.unit.name ++ " screen",
   "",
   importLine ["useMemo"] "'react'",
   if module.unit.defaultExport then "import " ++ module.unit.name ++ " from " ++ literal ++ ";"
   else importLine [module.unit.name] literal] ++
  (if module.typeImports.isEmpty then [] else [importTypeLine module.typeImports.toList literal]) ++
  [importLine [contextHooksFactory] (singleQuoted module.contextSpecifier)] ++
  (Names.ofList (module.hooks.filterMap (·.factoryImport?))).toList

/-- The lazily constructed instance. -/
def instanceLines (module : Module) : List String :=
  ["",
   "// Lazily constructed, process-wide " ++ module.unit.name ++ " instance",
   "let instance: " ++ module.instanceType ++ " | null = null;",
   "const getInstance = (): " ++ module.instanceType ++ " => \x7b",
   "  if (instance === null) \x7b",
   "    instance = new " ++ module.unit.name ++ "();",
   "  \x7d",
   "  return instance;",
   "\x7d;"]

/-- The hook that returns the instance. -/
def primaryLines (module : Module) : List String :=
  ["",
   "// Primary hook: the " ++ module.unit.name ++ " singleton",
   "export const " ++ module.unit.primaryHook ++ " = (): " ++ module.instanceType ++
     " => useMemo(() => getInstance(), []);"]

/-- The hooks of the shared models, all from one call of the factory. -/
def sharedLines (module : Module) : List String :=
  if module.sharedHooks.isEmpty then []
  else
    titled "Shared context hooks"
      ["export const \x7b",
       "  " ++ String.intercalate ",\n  " module.sharedHooks,
       "\x7d = " ++ contextHooksFactory ++ "<" ++ module.instanceType ++ ">(getInstance);"]

/-- The accessors of the screen's own models; the title stands even alone. -/
def accessorLines (module : Module) : List String :=
  "" :: "// Screen-specific context hooks" :: module.accessors.map Accessor.line

/-- The re-exports of the published types. -/
def typeLines (module : Module) : List String :=
  if module.typeExports.isEmpty then []
  else
    let literal := singleQuoted module.coreSpecifier
    titled "Types"
      [exportTypeLine module.typeExports literal, "export type * from " ++ literal ++ ";"]

/-- The lines of a hook module. -/
def lines (module : Module) : List String :=
  module.importLines ++ module.instanceLines ++ module.primaryLines ++ module.sharedLines ++
    module.accessorLines ++ titled "Methods" (module.wrappers.map Wrapper.line) ++
    titled "Utility hooks" (module.hooks.flatMap BoundHook.lines) ++ module.typeLines

/-- The text of a hook module. -/
def text (module : Module) : String := endLines module.lines

/-- The utility hooks that the module exports. -/
def hookNames (module : Module) : List String := module.hooks.map (·.hook.hook)

/-! ### Laws -/

theorem typeImports_not_class (settings : Settings) (unit : Screen.Unit)
    (interfaces : Screen.Interfaces) :
    unit.name ∉ (Module.of settings unit interfaces).typeImports := by
  simp [Names.mem_def, Module.of, Names.erase]

end Module

end ScreenHooks.Hook
