/-
Reading JSON texts.

The reader is strict: no comments, no trailing commas, no lone surrogates, no
control characters in strings, and at most 127 containers inside each other.
Of members with one key the first gives the place and the last the value.

* **`read_null`** — an example of the whole reader.
-/
import ScreenHooks.Json.Number

namespace ScreenHooks.Json

/-! ### Strings -/

/-- The value of a hexadecimal digit. -/
def hexValue? (c : Char) : Option Nat :=
  if c.isDigit then some (c.toNat - '0'.toNat)
  else if 'a' ≤ c ∧ c ≤ 'f' then some (c.toNat - 'a'.toNat + 10)
  else if 'A' ≤ c ∧ c ≤ 'F' then some (c.toNat - 'A'.toNat + 10)
  else none

/-- The number of four hexadecimal digits. -/
def hexUnit? (a b c d : Char) : Option Nat := do
  return (← hexValue? a) * 4096 + (← hexValue? b) * 256 + (← hexValue? c) * 16 + (← hexValue? d)

/-- The character of an escape of one letter. -/
def escaped? : Char → Option Char
  | '"' => some '"'
  | '\\' => some '\\'
  | '/' => some '/'
  | 'b' => some '\x08'
  | 'f' => some '\x0c'
  | 'n' => some '\n'
  | 'r' => some '\r'
  | 't' => some '\t'
  | _ => none

/-- Reads the rest of a string after its opening quote. -/
def readString : List Char → Option (List Char × List Char)
  | [] => none
  | '"' :: r => some ([], r)
  | '\\' :: 'u' :: a :: b :: c :: d :: r =>
    match hexUnit? a b c d with
    | none => none
    | some high =>
      -- the second half of a surrogate pair alone
      if 0xDC00 ≤ high ∧ high ≤ 0xDFFF then none
      else if 0xD800 ≤ high ∧ high ≤ 0xDBFF then
        match r with
        | '\\' :: 'u' :: a' :: b' :: c' :: d' :: r' =>
          match hexUnit? a' b' c' d' with
          | none => none
          | some low =>
            if 0xDC00 ≤ low ∧ low ≤ 0xDFFF then
              (readString r').map fun (text, rest) =>
                (Char.ofNat (0x10000 + (high - 0xD800) * 1024 + (low - 0xDC00)) :: text, rest)
            else none
        | _ => none
      else (readString r).map fun (text, rest) => (Char.ofNat high :: text, rest)
  | '\\' :: e :: r =>
    match escaped? e with
    | none => none
    | some c => (readString r).map fun (text, rest) => (c :: text, rest)
  | c :: r =>
    if c.toNat < 0x20 ∨ c = '\\' then none
    else (readString r).map fun (text, rest) => (c :: text, rest)

/-! ### Values -/

/-- The blanks between tokens. -/
def isSpace (c : Char) : Bool := c == ' ' || c == '\n' || c == '\t' || c == '\r'

/-- Drops the blanks at the front. -/
def skipSpace (cs : List Char) : List Char := cs.dropWhile isSpace

/-- The rest of the text after a literal word. -/
def dropWord? (word : String) (cs : List Char) : Option (List Char) :=
  if word.toList.isPrefixOf cs then some (cs.drop word.length) else none

mutual

/-- Reads a value; the second argument counts the containers that may still be
opened inside each other. -/
def readValue : Nat → Nat → List Char → Option (Json × List Char)
  | 0, _, _ => none
  | fuel + 1, depth, cs =>
    match skipSpace cs with
    | '"' :: r => (readString r).map fun (text, rest) => (.string (String.ofList text), rest)
    | '[' :: r =>
      if depth = 0 then none
      else match skipSpace r with
        | ']' :: rest => some (.array [], rest)
        | r => (readItems fuel (depth - 1) r).map fun (items, rest) => (.array items, rest)
    | '\x7b' :: r =>
      if depth = 0 then none
      else match skipSpace r with
        | '\x7d' :: rest => some (.object [], rest)
        | r => (readMembers fuel (depth - 1) r).map
          fun (members, rest) => (.object (Table.newest members), rest)
    | 'n' :: r => (dropWord? "ull" r).map fun rest => (.null, rest)
    | 't' :: r => (dropWord? "rue" r).map fun rest => (.bool true, rest)
    | 'f' :: r => (dropWord? "alse" r).map fun rest => (.bool false, rest)
    | cs => (readNumber cs).map fun (n, rest) => (.number n, rest)

/-- Reads the items of an array up to its bracket. -/
def readItems : Nat → Nat → List Char → Option (List Json × List Char)
  | 0, _, _ => none
  | fuel + 1, depth, cs =>
    match readValue fuel depth cs with
    | none => none
    | some (item, r) =>
      match skipSpace r with
      | ',' :: r => (readItems fuel depth r).map fun (items, rest) => (item :: items, rest)
      | ']' :: rest => some ([item], rest)
      | _ => none

/-- Reads the members of an object up to its brace. -/
def readMembers : Nat → Nat → List Char → Option (List (String × Json) × List Char)
  | 0, _, _ => none
  | fuel + 1, depth, cs =>
    match skipSpace cs with
    | '"' :: r =>
      match readString r with
      | none => none
      | some (key, r) =>
        match skipSpace r with
        | ':' :: r =>
          match readValue fuel depth r with
          | none => none
          | some (value, r) =>
            let member := (String.ofList key, value)
            match skipSpace r with
            | ',' :: r =>
              (readMembers fuel depth r).map fun (members, rest) => (member :: members, rest)
            | '\x7d' :: rest => some ([member], rest)
            | _ => none
        | _ => none
    | _ => none

end

/-- The number of containers that may be inside each other. -/
def maxDepth : Nat := 127

/-- The value of a JSON text. -/
def readChars? (cs : List Char) : Option Json :=
  match readValue (2 * cs.length + 2) maxDepth cs with
  | some (value, rest) => if (skipSpace rest).isEmpty then some value else none
  | none => none

/-- The value of a JSON text. -/
def read? (text : String) : Option Json := readChars? text.toList

theorem read_null : (readChars? ['n', 'u', 'l', 'l', ' ']).isSome = true := by decide

end ScreenHooks.Json
