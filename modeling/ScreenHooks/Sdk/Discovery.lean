/-
Finding screens and their interfaces.

A screen is a class that the barrel exports as a value. The interfaces of a
screen come from its declaration file: the published ones among its exports,
and the methods of the members interface, which need not be published.

* **`Screen.AllowList.ofText_none`** — an unreadable index publishes nothing.
-/
import ScreenHooks.Json.Reader
import ScreenHooks.Naming
import ScreenHooks.Screen.AllowList
import ScreenHooks.Screen.Unit
import ScreenHooks.Sdk.Project

namespace ScreenHooks

/-- The interfaces of a documentation index in JSON; what is no JSON publishes
nothing. -/
def Screen.AllowList.ofText (text : String) (kind : Nat) : Screen.AllowList :=
  match Json.read? text with
  | some index => .ofIndex index kind
  | none => .empty

/-- The interfaces of the documentation index at a path; an index that cannot
be read publishes nothing. -/
def Screen.AllowList.load (d : Disk) (path : Path) (kind : Nat) : Screen.AllowList :=
  match d.readText path with
  | .ok text => .ofText text kind
  | .error _ => .empty

theorem Screen.AllowList.ofText_none (text : String) (kind : Nat) (h : Json.read? text = none) :
    Screen.AllowList.ofText text kind = .empty := by
  simp [ofText, h]

namespace Sdk

/-! ### Screens -/

/-- A screen class behind an exported name. -/
structure FoundScreen where
  name : String
  kebab : String
  resolved : Resolved

/-- The names that the barrel exports as values. -/
def barrelNames (barrel : Path) : Reading Names := Project.exportedNames barrel false

/-- The screen behind a name that the barrel exports, if it is a class. -/
def screen? (naming : Naming) (barrel : Path) (name : String) : Reading (Option FoundScreen) := do
  match ← Project.resolveExport barrel name with
  | some resolved =>
    return if resolved.kind = .classType then some ⟨name, naming.kebab name, resolved⟩ else none
  | none => return none

/-- The screens that the barrel exports, in its order. The barrel has to
exist. -/
def discover (naming : Naming) (barrel : Path) : Reading (List FoundScreen) := do
  if (← Project.load barrel).isNone then throw (.run (.missingEntry barrel))
  (← barrelNames barrel).toList.filterMapM (screen? naming barrel)

/-! ### Interfaces -/

/-- Whether the declaration behind an exported name is an interface. -/
def isInterface (declarations : Path) (name : String) : Reading Bool := do
  match ← Project.resolveExport declarations name with
  | some resolved => return resolved.kind = .interfaceType
  | none => return false

/-- The exported interface of a name, wherever it is declared. -/
def membersInterface? (declarations : Path) (name : String) :
    Reading (Option Script.Interface) := do
  match ← Project.resolveExport declarations name with
  | some ⟨module, some localName, .interfaceType⟩ =>
    return (← Project.load module).bind (·.interface? localName)
  | _ => return none

/-- The interfaces of a screen in its declaration file. -/
def extract (declarations : Path) (unit : Screen.Unit) (allow : Screen.AllowList) :
    Reading Screen.Interfaces := do
  let names ← Project.exportedNames declarations true
  let published ← (names.toList.filter allow.contains).filterM (isInterface declarations)
  let members ← membersInterface? declarations unit.membersInterface
  return {
    methods := (members.map (·.methods)).getD []
    published := .ofList published
    membersFound := members.isSome }

end Sdk

end ScreenHooks
