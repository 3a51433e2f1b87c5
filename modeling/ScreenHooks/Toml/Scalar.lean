/-
Numbers, truth values and times of TOML documents.

Between two digits of a number one underscore may stand. Integers have 64 bits,
and a double that is too large for its type is refused. A time keeps at most
nine digits of a second; it is read as its text, with a capital `T` between the
date and the time of day.

* **`digits?_of_all`** — digits without underscores are read as they are.
-/
import ScreenHooks.Decimal.Text
import ScreenHooks.Json.Reader
import ScreenHooks.Text.Search

namespace ScreenHooks.Toml

open Decimal Text

/-! ### Integers -/

/-- Digits between which single underscores may stand, without these. -/
def digits? (isDigit : Char → Bool) (cs : List Char) : Option (List Char) :=
  let parts := splitBy (· == '_') cs
  if parts.all fun part => !part.isEmpty && part.all isDigit then some parts.flatten else none

/-- The digits of a decimal integer; no zero stands before other digits. -/
def wholeDigits? (cs : List Char) : Option (List Char) :=
  (digits? Char.isDigit cs).bind fun digits =>
    if digits.head? = some '0' ∧ digits.length ≠ 1 then none else some digits

/-- The number that digits of a base stand for. -/
def radix? (base : Nat) (cs : List Char) : Option Int :=
  (digits? (fun c => (Json.hexValue? c).any (· < base)) cs).map fun digits =>
    digits.foldl (fun acc c => acc * base + (Json.hexValue? c).getD 0) 0

/-- The integer of a word. -/
def integer? : List Char → Option Int
  | '0' :: 'x' :: r => radix? 16 r
  | '0' :: 'o' :: r => radix? 8 r
  | '0' :: 'b' :: r => radix? 2 r
  | word =>
    let (negative, cs) := splitSign word
    (wholeDigits? cs).map fun digits =>
      if negative then -(valueOf digits : Int) else valueOf digits

/-- Whether an integer has at most 64 bits. -/
def fits (n : Int) : Bool := Int64.minValue.toInt ≤ n && n ≤ Int64.maxValue.toInt

/-! ### Doubles -/

/-- The exponent that follows the digits of a double. -/
def exponent? : List Char → Option Int
  | [] => some 0
  | c :: r =>
    if c = 'e' ∨ c = 'E' then
      let (negative, cs) := splitSign r
      (digits? Char.isDigit cs).map fun digits =>
        if negative then -(valueOf digits : Int) else valueOf digits
    else none

/-- The characters of a run of digits. -/
def isRun (c : Char) : Bool := c.isDigit || c == '_'

/-- The double of decimal digits with a fraction or an exponent. -/
def decimal? (cs : List Char) : Option Float := do
  let whole ← wholeDigits? (cs.takeWhile isRun)
  match cs.dropWhile isRun with
  | [] => none
  | '.' :: r =>
    let fraction ← digits? Char.isDigit (r.takeWhile isRun)
    let e ← exponent? (r.dropWhile isRun)
    return nearest (valueOf (whole ++ fraction)) (e - (fraction.length : Int))
  | r => return nearest (valueOf whole) (← exponent? r)

/-- The double of a word. -/
def double? (word : List Char) : Option Float :=
  let (negative, cs) := splitSign word
  let magnitude :=
    if cs = "inf".toList then some infinity
    else if cs = "nan".toList then some (0.0 / 0.0)
    else (decimal? cs).filter fun f => !f.isInf
  magnitude.map fun f => if negative then -f else f

/-! ### Times -/

/-- Reads `n` digits whose value lies between two numbers. -/
def readDigits (n least greatest : Nat) (cs : List Char) : Option (List Char × List Char) :=
  let digits := cs.take n
  if digits.length = n ∧ digits.all Char.isDigit ∧
      least ≤ valueOf digits ∧ valueOf digits ≤ greatest then
    some (digits, cs.drop n)
  else none

/-- Drops a character at the front. -/
def dropChar? (c : Char) : List Char → Option (List Char)
  | x :: r => if x = c then some r else none
  | [] => none

/-- Whether a year has a leap day. -/
def isLeap (year : Nat) : Bool := year % 4 = 0 && (year % 100 ≠ 0 || year % 400 = 0)

/-- The number of days in a month. -/
def daysIn (year month : Nat) : Nat :=
  if month = 2 then if isLeap year then 29 else 28
  else if month = 4 ∨ month = 6 ∨ month = 9 ∨ month = 11 then 30
  else 31

/-- Reads a date. -/
def readDate (cs : List Char) : Option (List Char × List Char) := do
  let (year, r) ← readDigits 4 0 9999 cs
  let (month, r) ← readDigits 2 1 12 (← dropChar? '-' r)
  let (day, r) ← readDigits 2 1 (daysIn (valueOf year) (valueOf month)) (← dropChar? '-' r)
  return (year ++ '-' :: month ++ '-' :: day, r)

/-- Reads the fraction of a second, which may be absent. -/
def readFraction : List Char → Option (List Char × List Char)
  | '.' :: r =>
    let digits := r.takeWhile Char.isDigit
    let kept := ((digits.take 9).reverse.dropWhile (· == '0')).reverse
    if digits.isEmpty then none
    else some (if kept.isEmpty then [] else '.' :: kept, r.dropWhile Char.isDigit)
  | r => some ([], r)

/-- Reads a time of day; a minute may have a leap second. -/
def readTime (cs : List Char) : Option (List Char × List Char) := do
  let (hour, r) ← readDigits 2 0 23 cs
  let (minute, r) ← readDigits 2 0 59 (← dropChar? ':' r)
  let (second, r) ← readDigits 2 0 60 (← dropChar? ':' r)
  let (fraction, r) ← readFraction r
  return (hour ++ ':' :: minute ++ ':' :: second ++ fraction, r)

/-- The offset at the end of a time, which may be absent. -/
def offset? : List Char → Option (List Char)
  | [] => some []
  | ['Z'] => some ['Z']
  | ['z'] => some ['Z']
  | sign :: r => do
    let (hour, r) ← readDigits 2 0 23 r
    let (minute, r) ← readDigits 2 0 59 (← dropChar? ':' r)
    if (sign = '+' ∨ sign = '-') ∧ r.isEmpty then
      -- an offset of zero has a plus sign
      let sign := if valueOf (hour ++ minute) = 0 then '+' else sign
      return sign :: hour ++ ':' :: minute
    else none

/-- The text of a date, a time of day, or both. -/
def time? (word : List Char) : Option (List Char) :=
  match readDate word with
  | some (date, []) => some date
  | some (date, c :: r) =>
    if c = 'T' ∨ c = 't' ∨ c = ' ' then do
      let (time, r) ← readTime r
      return date ++ 'T' :: time ++ (← offset? r)
    else none
  | none =>
    match readTime word with
    | some (time, []) => some time
    | _ => none

/-! ### Words -/

/-- The characters of words. -/
def isWord (c : Char) : Bool :=
  c.isAlphanum || c == '_' || c == '-' || c == '+' || c == '.' || c == ':'

/-- The word at the front; between a date and a time of day there may be a
space. -/
def spanWord (cs : List Char) : List Char × List Char :=
  let word := cs.takeWhile isWord
  match readDate word, cs.dropWhile isWord with
  | some (_, []), ' ' :: r =>
    if (readTime (r.takeWhile isWord)).isSome then
      (word ++ ' ' :: r.takeWhile isWord, r.dropWhile isWord)
    else (word, ' ' :: r)
  | _, rest => (word, rest)

/-- The value of a word. -/
def scalar? (word : List Char) : Option Json :=
  if word = "true".toList then some (.bool true)
  else if word = "false".toList then some (.bool false)
  else match integer? word with
    | some n => if fits n then some (.number (.integer n)) else none
    | none =>
      match double? word with
      | some f => some (.number (.double f))
      | none => (time? word).map fun text => .string (String.ofList text)

/-- Reads a number, a truth value or a time. -/
def readScalar (cs : List Char) : Option (Json × List Char) :=
  (scalar? (spanWord cs).1).map fun value => (value, (spanWord cs).2)

/-! ### Laws -/

theorem digits?_of_all (cs : List Char) (hne : cs ≠ [])
    (h : ∀ c ∈ cs, c.isDigit = true ∧ c ≠ '_') : digits? Char.isDigit cs = some cs := by
  have hsplit : splitBy (· == '_') cs = [cs] :=
    splitBy_of_none _ cs fun c hc => by simp [(h c hc).2]
  have hall : cs.all Char.isDigit = true := List.all_eq_true.2 fun c hc => (h c hc).1
  simp [digits?, hsplit, hne, hall]

end ScreenHooks.Toml
