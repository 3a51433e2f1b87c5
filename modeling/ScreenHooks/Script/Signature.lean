/-
Method signatures as they stand in a script interface.

Parameters keep their declaration order, and a type is the text between the
colon and the end of the type.
-/

namespace ScreenHooks.Script

/-- A parameter of a method. -/
structure Parameter where
  name : String
  type : String := "any"
  optional : Bool := false
  deriving DecidableEq

/-- A method of an interface. -/
structure Method where
  name : String
  parameters : List Parameter := []
  deriving DecidableEq

end ScreenHooks.Script
