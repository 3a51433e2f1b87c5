/-
The usage document of a screen.

The document imports the primary hook, at most two context hooks, the wrappers
and the utility hooks, and calls each wrapper once with a plausible literal
for every required parameter.
-/
import ScreenHooks.Hook.Module

namespace ScreenHooks.Hook

open Text

/-- Literals by what a parameter's name contains; the first match counts. -/
def mockTable : List (String × String) :=
  [("email", "'user@example.com'"), ("username", "'demo-user'"), ("password", "'<password>'"),
   ("captcha", "'abc123'"), ("connection", "'google-oauth2'"), ("code", "'123456'"),
   ("token", "'abc.def.ghi'"), ("id", "'user_abc123'")]

/-- A plausible literal for a parameter of the given name. -/
def mockValue (name : String) : String :=
  match mockTable.find? fun entry => contains (toLower name) entry.1 with
  | some entry => entry.2
  | none => "'<" ++ name ++ ">'"

/-- The call of a wrapper, with one argument for each required parameter. -/
def exampleCall (naming : Naming) (method : Script.Method) : String :=
  "await " ++ naming.escape method.name ++ "(" ++
    String.intercalate ", "
      ((method.parameters.filter (!·.optional)).map fun parameter => mockValue parameter.name) ++
    ");"

/-- The constant that holds the result of a utility hook: the hook's name
without `use`, or the method's name, with its first letter lowered. -/
def hookBinding (hook : UtilityHook) : String :=
  let bare :=
    match dropPrefix? "use".toList hook.hook.toList with
    | some (c :: r) => c :: r
    | _ => hook.method.toList
  match bare with
  | [] => hook.method
  | c :: r => String.ofList (lowerChars c ++ r)

/-- The names on the import line. -/
def exampleImports (settings : Settings) (unit : Screen.Unit) (interfaces : Screen.Interfaces) :
    List String :=
  unit.primaryHook :: ((settings.contextModels.map accessorName).take 2 ++
    (wrapped settings interfaces).map (fun method => settings.naming.escape method.name) ++
    (hooked settings interfaces).map fun bound => bound.2.hook)

/-- The calls of the wrappers. -/
def exampleCalls (settings : Settings) (interfaces : Screen.Interfaces) : List String :=
  match wrapped settings interfaces with
  | [] => ["    // this screen exposes no methods"]
  | methods => methods.map fun method => "    " ++ exampleCall settings.naming method

/-- The usage document of a screen in the package `packageName`. -/
def exampleDocument (settings : Settings) (unit : Screen.Unit) (interfaces : Screen.Interfaces)
    (packageName : String) : String :=
  let accessors := settings.contextModels.map accessorName
  endLines <|
    ["<!-- " ++ settings.sentinel ++ " -->",
     "# `" ++ unit.kebab ++ "` screen",
     "",
     "Hooks for the **" ++ unit.name ++ "** screen. Remove the marker comment above before",
     "editing; until then the generator may rewrite this file.",
     "",
     "## Usage",
     "",
     "```tsx",
     "import " ++ braced (exampleImports settings unit interfaces) ++ " from '" ++ packageName ++
       "/" ++ unit.kebab ++ "';",
     "",
     "export function " ++ unit.name ++ "Screen() \x7b",
     "  const screen = " ++ unit.primaryHook ++ "(); // typed as " ++ unit.membersInterface,
     "  const \x7b name \x7d = " ++ accessors.head?.getD "useScreen" ++ "();"] ++
    (hooked settings interfaces).map (fun bound =>
      "  const " ++ hookBinding bound.2 ++ " = " ++ bound.2.hook ++ "();") ++
    ["", "  const onSubmit = async () => \x7b"] ++
    exampleCalls settings interfaces ++
    ["  \x7d;",
     "",
     "  return <form onSubmit=\x7bonSubmit\x7d>\x7bname\x7d</form>;",
     "\x7d",
     "```",
     "",
     "## Context hooks",
     "",
     String.intercalate "\n" (accessors.map fun hook => "- `" ++ hook ++ "()`")]

end ScreenHooks.Hook
