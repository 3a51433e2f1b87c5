/-
Writing JSON texts.

`Json.pretty` puts every item and member on a line of its own, indented by two
blanks; `Json.compact` writes no blanks. Only quotes, backslashes and control
characters are escaped.

* **`escapeChar_of_plain`** — any other character stands for itself.
-/
import ScreenHooks.Json.Number

namespace ScreenHooks.Json

open Decimal

/-! ### Strings -/

/-- A lowercase hexadecimal digit. -/
def hexDigit (n : Nat) : Char := if n < 10 then Char.ofNat (48 + n) else Char.ofNat (87 + n)

/-- A character inside a string. -/
def escapeChar (c : Char) : List Char :=
  if c = '"' then ['\\', '"']
  else if c = '\\' then ['\\', '\\']
  else if c = '\x08' then ['\\', 'b']
  else if c = '\t' then ['\\', 't']
  else if c = '\n' then ['\\', 'n']
  else if c = '\x0c' then ['\\', 'f']
  else if c = '\r' then ['\\', 'r']
  else if c.toNat < 0x20 then
    ['\\', 'u', '0', '0', hexDigit (c.toNat / 16), hexDigit (c.toNat % 16)]
  else [c]

/-- A quoted string. -/
def quote (s : String) : List Char := '"' :: (s.toList.flatMap escapeChar ++ ['"'])

theorem escapeChar_of_plain (c : Char) (h : 0x20 ≤ c.toNat) (hq : c ≠ '"') (hb : c ≠ '\\') :
    escapeChar c = [c] := by
  have h8 : c ≠ '\x08' := by rintro rfl; exact absurd h (by decide)
  have h9 : c ≠ '\t' := by rintro rfl; exact absurd h (by decide)
  have h10 : c ≠ '\n' := by rintro rfl; exact absurd h (by decide)
  have h12 : c ≠ '\x0c' := by rintro rfl; exact absurd h (by decide)
  have h13 : c ≠ '\r' := by rintro rfl; exact absurd h (by decide)
  simp [escapeChar, hq, hb, h8, h9, h10, h12, h13, Nat.not_lt.2 h]

/-! ### Pretty text -/

/-- A line break and the indentation of a level. -/
def newline (level : Nat) : List Char := '\n' :: List.replicate (2 * level) ' '

mutual

/-- The text of a value at a level of indentation. -/
def prettyAt (level : Nat) : Json → List Char
  | .null => ['n', 'u', 'l', 'l']
  | .bool true => ['t', 'r', 'u', 'e']
  | .bool false => ['f', 'a', 'l', 's', 'e']
  | .number n => textOfNumber n
  | .string s => quote s
  | .array [] => ['[', ']']
  | .array (item :: items) =>
    '[' :: (newline (level + 1) ++ prettyAt (level + 1) item ++ prettyItems (level + 1) items ++
      newline level ++ [']'])
  | .object [] => ['\x7b', '\x7d']
  | .object (member :: members) =>
    '\x7b' :: (newline (level + 1) ++ prettyMember (level + 1) member ++
      prettyMembers (level + 1) members ++ newline level ++ ['\x7d'])

/-- The items after the first, each behind a comma. -/
def prettyItems (level : Nat) : List Json → List Char
  | [] => []
  | item :: items => ',' :: (newline level ++ prettyAt level item ++ prettyItems level items)

/-- A member. -/
def prettyMember (level : Nat) : String × Json → List Char
  | (key, value) => quote key ++ ':' :: ' ' :: prettyAt level value

/-- The members after the first, each behind a comma. -/
def prettyMembers (level : Nat) : List (String × Json) → List Char
  | [] => []
  | member :: members =>
    ',' :: (newline level ++ prettyMember level member ++ prettyMembers level members)

end

/-- The text of a value with one line for each item and member. -/
def pretty (value : Json) : String := String.ofList (prettyAt 0 value)

/-! ### Compact text -/

mutual

/-- The text of a value without blanks. -/
def compactChars : Json → List Char
  | .array items => '[' :: (compactItems items ++ [']'])
  | .object members => '\x7b' :: (compactMembers members ++ ['\x7d'])
  | .null => ['n', 'u', 'l', 'l']
  | .bool true => ['t', 'r', 'u', 'e']
  | .bool false => ['f', 'a', 'l', 's', 'e']
  | .number n => textOfNumber n
  | .string s => quote s

/-- Items with commas between them. -/
def compactItems : List Json → List Char
  | [] => []
  | [item] => compactChars item
  | item :: items => compactChars item ++ ',' :: compactItems items

/-- A member. -/
def compactMember : String × Json → List Char
  | (key, value) => quote key ++ ':' :: compactChars value

/-- Members with commas between them. -/
def compactMembers : List (String × Json) → List Char
  | [] => []
  | [member] => compactMember member
  | member :: members => compactMember member ++ ',' :: compactMembers members

end

/-- The text of a value without blanks. -/
def compact (value : Json) : String := String.ofList (compactChars value)

end ScreenHooks.Json
