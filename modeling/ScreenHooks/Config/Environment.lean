/-
The environment of the program.

Variables whose name starts with `HOOKGEN_` form a layer of configuration: two
underscores in the rest of the name stand for a dot, and letter case does not
matter. A value that reads as a truth value, an integer or a double is one.

* **`setting?_of_not_start`** — other variables are no part of it.
-/
import ScreenHooks.Config.Layer
import ScreenHooks.Text.Case

namespace ScreenHooks

open Text

/-- The variables of the environment, each with its value. -/
abbrev Environment := List (String × String)

namespace Environment

/-- The variables of a block of texts, each of which ends with a NUL and has an
equals sign between name and value. -/
def ofBlock (block : String) : Environment :=
  (splitAt block '\x00').filterMap fun text =>
    match text.toList.dropWhile (· != '=') with
    | _ :: value => some (String.ofList (text.toList.takeWhile (· != '=')), String.ofList value)
    | [] => none

/-- The home directory. -/
def home? (environment : Environment) : Option String :=
  (environment.lookup "HOME").filter (· ≠ "")

/-- How the names of configuration variables start, in lower case. -/
def start : List Char := "hookgen_".toList

/-- The double of a text, which may also be infinite or no number. -/
def double? (text : List Char) : Option Float :=
  let (negative, cs) := Decimal.splitSign text
  let word := String.ofList (cs.map Char.toLower)
  let magnitude :=
    if word = "inf" ∨ word = "infinity" then some Decimal.infinity
    else if word = "nan" then some (0.0 / 0.0)
    else Decimal.magnitude? cs
  magnitude.map fun f => if negative then -f else f

/-- The value of a variable. -/
def valueOf (text : String) : Json :=
  if toLower text = "true" then .bool true
  else if toLower text = "false" then .bool false
  else
    match (Decimal.integer? text.toList).filter
        fun n => Int64.minValue.toInt ≤ n ∧ n ≤ Int64.maxValue.toInt with
    | some n => .number (.integer n)
    | none =>
      match double? text.toList with
      | some f => .number (.double f)
      | none => .string text

/-- The key and the value of a variable that configures something. -/
def setting? (name value : String) : Option (String × Json) :=
  (dropPrefix? start (toLower name).toList).map fun rest =>
    (replaceAll (String.ofList rest) "__" ".", valueOf value)

/-- The layer of the environment. -/
def layer (environment : Environment) : List (String × Json) :=
  environment.filterMap fun (name, value) => setting? name value

theorem setting?_of_not_start (name value : String)
    (h : dropPrefix? start (toLower name).toList = none) : setting? name value = none := by
  simp [setting?, h]

end Environment

end ScreenHooks
