/-
JSON values.

Objects keep their members in order, one for each key. Numbers are integers
of 64 bits or doubles, as the reader decides.
-/
import ScreenHooks.Table

namespace ScreenHooks

/-- A JSON number. -/
inductive Json.Number where
  | integer (value : Int)
  | double (value : Float)

/-- A JSON value. -/
inductive Json where
  | null
  | bool (value : Bool)
  | number (value : Json.Number)
  | string (value : String)
  | array (items : List Json)
  | object (members : List (String × Json))

namespace Json

instance : Inhabited Json := ⟨.null⟩

/-! ### Members -/

/-- The member of an object. -/
def get? : Json → String → Option Json
  | .object members, key => members.lookup key
  | _, _ => none

/-! ### Views -/

/-- The text of a string. -/
def asString? : Json → Option String
  | .string s => some s
  | _ => none

/-- The truth value of a boolean. -/
def asBool? : Json → Option Bool
  | .bool b => some b
  | _ => none

/-- The value of an integer that is not negative. -/
def asNat? : Json → Option Nat
  | .number (.integer (.ofNat n)) => some n
  | _ => none

/-- The items of an array. -/
def asArray? : Json → Option (List Json)
  | .array items => some items
  | _ => none

/-- The members of an object. -/
def asObject? : Json → Option (List (String × Json))
  | .object members => some members
  | _ => none

/-- A natural number as a value. -/
def ofNat (n : Nat) : Json := .number (.integer n)

/-- A string, or null. -/
def ofOption : Option String → Json
  | some s => .string s
  | none => .null

/-- An array of strings. -/
def ofStrings (items : List String) : Json := .array (items.map .string)

end Json

end ScreenHooks
