/-
The named types that a type text refers to.

A type text is cut at every separator, and each piece gives at most one name:
what follows its last colon, without leading type operators, if it starts like
an identifier. Nothing is resolved, so `Promise<Foo> | Bar[]` refers to `Foo`
and `Bar` because `<` and `|` separate, not because generics are understood.

* **`pieceName?_eq_none_of_builtin`** — keywords, ambient types and operators
  are never named;
* **`typeNames_eq`** — the names of a text are those of its pieces.
-/
import ScreenHooks.Names
import ScreenHooks.Text.Blank
import ScreenHooks.Text.Search

namespace ScreenHooks.TypeText

open Text

/-- Keyword types. -/
def primitives : List String :=
  ["any", "string", "number", "boolean", "undefined", "void", "null", "symbol", "bigint", "this"]

/-- Operators written before a type. -/
def operators : List String := ["readonly", "keyof", "typeof", "unique", "infer"]

/-- Types that are in scope everywhere. -/
def ambient : List String :=
  ["Array", "ReadonlyArray", "Promise", "Record", "Partial", "Required", "Readonly", "Pick",
   "Omit", "Map", "Set", "Date", "Error", "unknown", "never", "object"]

/-- The names that need no import. -/
def isBuiltin (name : String) : Bool :=
  primitives.contains name || ambient.contains name || operators.contains name

/-- The characters that separate the pieces of a type text. -/
def isSeparator (c : Char) : Bool :=
  c == '<' || c == '>' || c == '|' || c == '&' || c == ',' || c == ';' || c == '(' || c == ')' ||
    c == '\x7b' || c == '\x7d'

/-- A character that may start an identifier. -/
def isNameStart (c : Char) : Bool := c.isAlpha || c == '_' || c == '$'

/-- A character that may continue an identifier. -/
def isNamePart (c : Char) : Bool := c.isAlphanum || c == '_' || c == '$'

/-! ### One piece -/

/-- What follows the last colon. -/
def afterColon (cs : List Char) : List Char := (cs.reverse.takeWhile (· != ':')).reverse

/-- Drops the operators, each with the blanks after it, that stand before a
type. -/
def dropOperators (cs : List Char) : List Char :=
  let word := cs.takeWhile (!isBlank ·)
  match _hrest : cs.dropWhile (!isBlank ·) with
  | [] => cs
  | _ :: rest =>
    -- operators may stand in a row, as in `readonly unique symbol`
    if operators.contains (String.ofList word) then dropOperators (trimStart rest) else cs
termination_by cs.length
decreasing_by
  have hle : (trimStart rest).length ≤ rest.length := (List.dropWhile_suffix _).length_le
  have hsuffix : (cs.dropWhile (!isBlank ·)).length ≤ cs.length :=
    (List.dropWhile_suffix _).length_le
  rw [_hrest] at hsuffix
  simp only [List.length_cons] at hsuffix
  omega

/-- The identifier that a text starts with. -/
def leadingName? : List Char → Option (List Char)
  | [] => none
  | c :: r => if isNameStart c then some (c :: r.takeWhile isNamePart) else none

/-- The name that one piece refers to, if it needs an import. -/
def pieceName? (piece : List Char) : Option String :=
  match leadingName? (dropOperators (trim (afterColon piece))) with
  | none => none
  | some name =>
    if isBuiltin (String.ofList name) then none else some (String.ofList name)

/-! ### The whole text -/

/-- The text without array brackets and with a bar for every arrow. -/
def flatten (cs : List Char) : List Char :=
  replaceAllChars ['=', '>'] ['|'] (replaceAllChars ['[', ']'] [] cs)

/-- The pieces of a type text. -/
def pieces (cs : List Char) : List (List Char) := splitBy isSeparator (flatten cs)

/-- The names of all pieces, with repeats. -/
def mentions (type : String) : List String := (pieces type.toList).filterMap pieceName?

/-- Adds the names of a type text to those already there. -/
def addNames (type : String) (names : Names) : Names := names.insertAll (mentions type)

/-- The names that a type text refers to. -/
def typeNames (type : String) : Names := addNames type .empty

theorem typeNames_eq (type : String) : typeNames type = Names.ofList (mentions type) := rfl

theorem pieceName?_eq_none_of_builtin (piece : List Char) (name : String)
    (h : pieceName? piece = some name) : isBuiltin name = false := by
  unfold pieceName? at h
  split at h
  · cases h
  · split at h
    · cases h
    next hb =>
      cases h
      simpa using hb

end ScreenHooks.TypeText
