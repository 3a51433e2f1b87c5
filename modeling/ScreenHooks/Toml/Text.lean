/-
Blanks, keys and strings of TOML documents.

A string is read in two steps: first its extent up to the closing quotes, then
its meaning. In a text of several lines a line break of either kind counts as
one character, the one right after the opening quotes is dropped, and a
backslash at the end of a line drops all blanks up to the next character.

* **`readKey_bare`** — a bare key is read whole.
-/
import ScreenHooks.Json.Reader

namespace ScreenHooks.Toml

/-! ### Blanks -/

/-- The blanks inside a line. -/
def isSpace (c : Char) : Bool := c == ' ' || c == '\t'

/-- Drops the blanks at the front. -/
def skipSpace (cs : List Char) : List Char := cs.dropWhile isSpace

/-- Whether a character may stand for itself in a comment or a string. -/
def isPlain (c : Char) : Bool := c == '\t' || (0x20 ≤ c.toNat && c.toNat != 0x7F)

/-- The rest of the text after a line break. -/
def dropBreak? : List Char → Option (List Char)
  | '\n' :: r => some r
  | '\r' :: '\n' :: r => some r
  | _ => none

/-- The rest of the text after the end of a line, on which only a comment may
be left. -/
def endLine? (cs : List Char) : Option (List Char) :=
  let rest := match skipSpace cs with
    | '#' :: r => r.dropWhile isPlain
    | r => r
  if rest.isEmpty then some [] else dropBreak? rest

/-- Drops blanks, line breaks and comments. -/
def skipFill (comment : Bool) : List Char → List Char
  | [] => []
  | '\r' :: '\n' :: r => skipFill false r
  | c :: r =>
    if c = '\n' then skipFill false r
    else if comment then if isPlain c then skipFill true r else c :: r
    else if isSpace c then skipFill false r
    else if c = '#' then skipFill true r
    else c :: r

/-! ### The extent of a string -/

/-- The text up to a closing double quote that no backslash stands before. -/
def spanQuoted : List Char → Option (List Char × List Char)
  | [] => none
  | '"' :: r => some ([], r)
  | '\\' :: c :: r => (spanQuoted r).map fun (text, rest) => ('\\' :: c :: text, rest)
  | c :: r => (spanQuoted r).map fun (text, rest) => (c :: text, rest)

/-- The end of a text in triple quotes. Two more quotes before the closing ones
belong to the text. -/
def endTriple? (quote : Char) (cs : List Char) : Option (List Char × List Char) :=
  let quotes := (cs.takeWhile (· == quote)).length
  if quotes < 3 then none
  else
    -- of six quotes the last one is left over
    let extra := min (quotes - 3) 2
    some (List.replicate extra quote, cs.drop (extra + 3))

/-- The text up to closing triple quotes. -/
def spanTriple (quote : Char) : List Char → Option (List Char × List Char)
  | [] => none
  | c :: r =>
    match endTriple? quote (c :: r) with
    | some found => some found
    | none =>
      match r with
      | e :: r' =>
        -- the character after a backslash closes nothing
        if quote = '"' ∧ c = '\\' then
          (spanTriple quote r').map fun (text, rest) => (c :: e :: text, rest)
        else (spanTriple quote (e :: r')).map fun (text, rest) => (c :: text, rest)
      | [] => none

/-! ### The meaning of a string -/

/-- The character of an escape of one letter. -/
def escaped? : Char → Option Char
  | '"' => some '"'
  | '\\' => some '\\'
  | 'b' => some '\x08'
  | 'f' => some '\x0c'
  | 'n' => some '\n'
  | 'r' => some '\r'
  | 't' => some '\t'
  | _ => none

/-- The character with the given hexadecimal number; surrogates are none. -/
def character? (digits : List Char) : Option Char := do
  let values ← digits.mapM Json.hexValue?
  let n := values.foldl (fun acc d => acc * 16 + d) 0
  if n.isValidChar then some (Char.ofNat n) else none

/-- Replaces the escapes of a text. -/
def unescape (multiline : Bool) : List Char → Option (List Char)
  | [] => some []
  | '\\' :: 'u' :: a :: b :: c :: d :: r => do
    let x ← character? [a, b, c, d]
    return x :: (← unescape multiline r)
  | '\\' :: 'U' :: a :: b :: c :: d :: e :: f :: g :: h :: r => do
    let x ← character? [a, b, c, d, e, f, g, h]
    return x :: (← unescape multiline r)
  | '\\' :: e :: r => do
    let x ← escaped? e
    return x :: (← unescape multiline r)
  | c :: r =>
    if c ≠ '\\' ∧ (isPlain c ∨ multiline ∧ c = '\n') then (unescape multiline r).map (c :: ·)
    else none

/-- Line breaks of both kinds as one character. -/
def unifyBreaks : List Char → List Char
  | [] => []
  | '\r' :: '\n' :: r => '\n' :: unifyBreaks r
  | c :: r => c :: unifyBreaks r

/-- The text after the opening triple quotes without a line break there. -/
def dropFirstBreak (cs : List Char) : List Char := (dropBreak? cs).getD cs

/-- Drops each backslash at the end of a line with the blanks after it; the
flag tells that blanks are being dropped. -/
def foldLines (dropping : Bool) : List Char → List Char
  | [] => []
  | c :: r =>
    if dropping && (isSpace c || c == '\n') then foldLines true r
    else if c = '\\' then
      match r with
      | [] => [c]
      | e :: r' =>
        if (isSpace e || e == '\n') && (skipSpace (e :: r')).head? == some '\n' then
          foldLines true r'
        else c :: e :: foldLines false r'
    else c :: foldLines false r

/-- A text without escapes, if all of its characters may stand for themselves. -/
def literal? (multiline : Bool) (cs : List Char) : Option (List Char) :=
  if cs.all fun c => isPlain c || (multiline && c == '\n') then some cs else none

/-! ### Strings and keys -/

/-- Reads a string of one line. -/
def readLineString : List Char → Option (String × List Char)
  | '"' :: r => do
    let (text, rest) ← spanQuoted r
    return (String.ofList (← unescape false text), rest)
  | '\'' :: r =>
    match r.dropWhile (· != '\'') with
    | _ :: rest => (literal? false (r.takeWhile (· != '\''))).map (String.ofList ·, rest)
    | [] => none
  | _ => none

/-- Reads a string. -/
def readString : List Char → Option (String × List Char)
  | '"' :: '"' :: '"' :: r => do
    let (text, rest) ← spanTriple '"' (dropFirstBreak r)
    return (String.ofList (← unescape true (foldLines false (unifyBreaks text))), rest)
  | '\'' :: '\'' :: '\'' :: r => do
    let (text, rest) ← spanTriple '\'' (dropFirstBreak r)
    return (String.ofList (← literal? true (unifyBreaks text)), rest)
  | cs => readLineString cs

/-- The characters of keys without quotes. -/
def isBare (c : Char) : Bool := c.isAlphanum || c == '_' || c == '-'

/-- Reads one part of a key. -/
def readKeyPart (cs : List Char) : Option (String × List Char) :=
  if (cs.takeWhile isBare).isEmpty then readLineString cs
  else some (String.ofList (cs.takeWhile isBare), cs.dropWhile isBare)

/-- Reads a key, whose parts have dots between them. -/
def readDotted : Nat → List Char → Option (List String × List Char)
  | 0, _ => none
  | fuel + 1, cs => do
    let (part, r) ← readKeyPart (skipSpace cs)
    match skipSpace r with
    | '.' :: r =>
      let (parts, rest) ← readDotted fuel r
      return (part :: parts, rest)
    | r => return ([part], r)

/-- Reads a key and the blanks after it. -/
def readKey (cs : List Char) : Option (List String × List Char) := readDotted (cs.length + 1) cs

theorem isSpace_of_isBare (c : Char) (h : isBare c = true) : isSpace c = false := by
  cases hs : isSpace c with
  | false => rfl
  | true =>
    simp only [isSpace, Bool.or_eq_true, beq_iff_eq] at hs
    rcases hs with rfl | rfl <;> exact absurd h (by decide)

theorem readKey_bare (c : Char) (cs : List Char) (h : ∀ x ∈ c :: cs, isBare x = true) :
    readKey (c :: cs) = some ([String.ofList (c :: cs)], []) := by
  have hspace := isSpace_of_isBare c (h c (by simp))
  have htake : (c :: cs).takeWhile isBare = c :: cs := by
    have e := @List.takeWhile_append_of_pos _ isBare (c :: cs) [] h
    rwa [List.append_nil, List.takeWhile_nil, List.append_nil] at e
  have hdrop : (c :: cs).dropWhile isBare = [] := by
    have e := @List.dropWhile_append_of_pos _ isBare (c :: cs) [] h
    rwa [List.append_nil, List.dropWhile_nil] at e
  have hskip : skipSpace (c :: cs) = c :: cs := by simp [skipSpace, hspace]
  simp only [readKey, readDotted, hskip, readKeyPart, htake, hdrop]
  rfl

end ScreenHooks.Toml
