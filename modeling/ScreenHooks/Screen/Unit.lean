/-
Screens and what is known about their interfaces.

A screen is a class of the core package; `Unit` holds its name, the kebab form
that its files are named by, and whether its module has a default export.
`Interfaces` is what the declaration file of one screen yields.
-/
import ScreenHooks.Names
import ScreenHooks.Script.Signature

namespace ScreenHooks.Screen

/-- A screen class. -/
structure Unit where
  name : String
  kebab : String
  defaultExport : Bool
  deriving DecidableEq

/-- The name by convention of the interface that lists the screen's methods. -/
def Unit.membersInterface (unit : Unit) : String := unit.name ++ "Members"

/-- The hook that returns the screen instance. -/
def Unit.primaryHook (unit : Unit) : String := "use" ++ unit.name

/-- The interfaces of one screen. -/
structure Interfaces where
  /-- The methods of the members interface, in declaration order. -/
  methods : List Script.Method := []
  /-- The published interfaces that the declaration file exports. -/
  published : Names := .empty
  /-- Whether there is a members interface. -/
  membersFound : Bool := false
  /-- The class methods tagged as utility features. -/
  utilityMethods : Names := .empty

end ScreenHooks.Screen
