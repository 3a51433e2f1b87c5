/-
What every generated module of a run has in common.

`Settings` holds the package, the naming rules, the context models, the
sentinel of placeholder files and the utility hooks; `Binding` says how a
method of a screen surfaces in its hook module.

* **`bind_eq_hook_iff`** — a method takes a hook exactly when one is
  configured for it.
-/
import ScreenHooks.Naming
import ScreenHooks.Screen.Unit
import ScreenHooks.Text.Quoted

namespace ScreenHooks.Hook

open Text

/-- A hook that replaces the plain wrapper of a method. With a factory the
screen module defines the hook by handing the bound method to the factory;
without one it re-exports the hook. -/
structure UtilityHook where
  method : String
  hook : String
  /-- A module below the hooks directory, or a relative or scoped specifier. -/
  module : String
  factory : Option String := none
  /-- The type of the options and the return type, in that order. -/
  types : List String := []
  deriving DecidableEq

/-- The resend countdown. -/
def UtilityHook.resend : UtilityHook where
  method := "resendManager"
  hook := "useResend"
  module := "utility"
  factory := some "useResendCountdown"
  types := ["UseResendOptions", "UseResendReturn"]

/-- The context models of a run that configures none. -/
def defaultContextModels : List String :=
  ["user", "tenant", "branding", "client", "organization", "prompt", "screen", "transaction",
   "untrustedData"]

/-- The marker of files that may be generated again. -/
def defaultSentinel : String := "@hookgen-placeholder"

/-- The settings of a run. -/
structure Settings where
  /-- The import specifier of the core package. -/
  package : String := "@acme/auth-core"
  naming : Naming := {}
  contextModels : List String := defaultContextModels
  sentinel : String := defaultSentinel
  /-- The specifier of the hooks directory as seen from a screen module. -/
  hooksSpecifier : String := "../hooks"
  utilityHooks : List UtilityHook := [.resend]

namespace Settings

/-- The module of the core package that holds a screen. -/
def coreSubpath (settings : Settings) (unit : Screen.Unit) : String :=
  settings.package ++ "/" ++ unit.kebab

/-- The models that have an accessor of their own in each screen module. -/
def screenModels : List String := ["screen", "transaction"]

/-- The models served by the shared factory. -/
def sharedModels (settings : Settings) : List String :=
  settings.contextModels.filter fun model => !screenModels.contains model

/-- The specifier of a module of the hooks directory. -/
def hooksModule (settings : Settings) (module : String) : String :=
  trimEndOf settings.hooksSpecifier '/' ++ "/" ++ module

/-- The hook configured for a method. -/
def utilityHook? (settings : Settings) (method : String) : Option UtilityHook :=
  settings.utilityHooks.find? (·.method == method)

/-- The specifier of a utility hook's module: relative and scoped ones are
kept, a bare name lies in the hooks directory. -/
def utilitySpecifier (settings : Settings) (hook : UtilityHook) : String :=
  if startsWith hook.module "." || startsWith hook.module "@" then hook.module
  else settings.hooksModule hook.module

end Settings

/-! ### Method bindings -/

/-- How a method of the members interface surfaces in the screen module. -/
inductive Binding where
  /-- An exported function that calls the method. -/
  | wrapper
  /-- A configured hook in place of the method. -/
  | hook (hook : UtilityHook)
  /-- Tagged as a utility feature without a hook for it, so not exported. -/
  | unmapped
  deriving DecidableEq

/-- The binding of a method: a configured hook comes first, then the tag. -/
def bind (settings : Settings) (interfaces : Screen.Interfaces) (method : Script.Method) :
    Binding :=
  match settings.utilityHook? method.name with
  | some hook => .hook hook
  | none => if interfaces.utilityMethods.contains method.name then .unmapped else .wrapper

theorem bind_eq_hook_iff (settings : Settings) (interfaces : Screen.Interfaces)
    (method : Script.Method) (hook : UtilityHook) :
    bind settings interfaces method = .hook hook ↔
      settings.utilityHook? method.name = some hook := by
  unfold bind
  split
  next h => simp [h]
  next h =>
    simp only [h, reduceCtorEq, iff_false]
    split <;> simp

/-- The methods that get a wrapper, in declaration order. -/
def wrapped (settings : Settings) (interfaces : Screen.Interfaces) : List Script.Method :=
  interfaces.methods.filter fun method => bind settings interfaces method = .wrapper

/-- The methods that take a hook, each with its hook, in declaration order. -/
def hooked (settings : Settings) (interfaces : Screen.Interfaces) :
    List (Script.Method × UtilityHook) :=
  interfaces.methods.filterMap fun method =>
    match bind settings interfaces method with
    | .hook hook => some (method, hook)
    | _ => none

/-- The accessor of a context model: `user` gives `useUser`. -/
def accessorName (model : String) : String := "use" ++ capitalize model

end ScreenHooks.Hook
