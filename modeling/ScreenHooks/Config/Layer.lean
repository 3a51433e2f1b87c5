/-
Layers of configuration.

A layer is a list of keys with values; a later layer overrides an earlier one.
A key may be a path of names and item numbers, such as `core.root` or
`hooks[0]`. A table is laid over another member by member; any other value
replaces what was there.

* **`overlay_of_not_object`** — a value that is no table replaces;
* **`setAt_nil`** — the empty path means the value itself.
-/
import ScreenHooks.Decimal.Text
import ScreenHooks.Json.Basic
import ScreenHooks.Text.Search

namespace ScreenHooks.Config

open Text

/-! ### Keys -/

/-- A step from a value to a part of it. -/
inductive Step where
  | member (name : String)
  /-- An item of an array; a negative number counts from the end. -/
  | item (index : Int)
  deriving DecidableEq

/-- The characters of names in paths. -/
def isNameChar (c : Char) : Bool := c.isAlphanum || c == '_' || c == '-'

/-- Reads a name. -/
def readName (cs : List Char) : Option (Step × List Char) :=
  if (cs.takeWhile isNameChar).isEmpty then none
  else some (.member (String.ofList (cs.takeWhile isNameChar)), cs.dropWhile isNameChar)

/-- Reads an item number after its bracket. -/
def readIndex (cs : List Char) : Option (Step × List Char) := do
  let cs := cs.dropWhile (· == ' ')
  let (negative, digits) := match cs with
    | '-' :: r => (true, r)
    | r => (false, r)
  let n ← Decimal.natural? (digits.takeWhile Char.isDigit)
  match (digits.dropWhile Char.isDigit).dropWhile (· == ' ') with
  | ']' :: rest => return (.item (if negative then -(n : Int) else n), rest)
  | _ => none

/-- Reads the steps after the first name. -/
def readSteps : Nat → List Char → Option (List Step)
  | _, [] => some []
  | 0, _ :: _ => none
  | fuel + 1, c :: r => do
    let (step, rest) ← if c = '.' then readName r else if c = '[' then readIndex r else none
    return step :: (← readSteps fuel rest)

/-- The path that a key means: its steps, or the key itself as a name. -/
def pathOf (key : String) : List Step :=
  let steps := do
    let (first, rest) ← readName key.toList
    return first :: (← readSteps rest.length rest)
  steps.getD [.member key]

/-! ### Values -/

/-- The members of a table; other values have none. -/
def membersOf : Json → List (String × Json)
  | .object members => members
  | _ => []

/-- The items of an array; other values have none. -/
def itemsOf : Json → List Json
  | .array items => items
  | _ => []

mutual

/-- Lays a value over another. -/
def overlay (below : Json) : Json → Json
  | .object members => .object (overlayMembers (membersOf below) members)
  | value => value

/-- Lays members over those of a table. -/
def overlayMembers (table : List (String × Json)) : List (String × Json) → List (String × Json)
  | [] => table
  | (key, value) :: rest =>
    overlayMembers (Table.put table key (overlay ((table.lookup key).getD .null) value)) rest

end

/-- An array in which an item exists, and the place of the item: missing items
are null. -/
def reach (items : List Json) (index : Int) : List Json × Nat :=
  let place := if index < 0 then index + items.length else index
  if place < 0 then (List.replicate place.natAbs .null ++ items, 0)
  else (items ++ List.replicate (place.toNat + 1 - items.length) .null, place.toNat)

/-- Lays a value over the part of another that a path means. -/
def setAt (value : Json) : List Step → Json → Json
  | [], below => overlay below value
  | .member name :: path, below =>
    let members := membersOf below
    .object (Table.put members name (setAt value path ((members.lookup name).getD .null)))
  | .item index :: path, below =>
    let (items, place) := reach (itemsOf below) index
    .array (items.modify place (setAt value path))

/-- The table of several layers. -/
def stack (layers : List (List (String × Json))) : Json :=
  layers.flatten.foldl (fun below entry => setAt entry.2 (pathOf entry.1) below) (.object [])

/-! ### Laws -/

theorem overlay_of_not_object (below value : Json) (h : value.asObject? = none) :
    overlay below value = value := by
  cases value with
  | object members => cases h
  | _ => rfl

theorem setAt_nil (value below : Json) : setAt value [] below = overlay below value := rfl

end ScreenHooks.Config
