/-
Reading and writing JSON numbers.

An integer that fits 64 bits is kept exactly. Any other number becomes a
double: the digits that fit 64 bits form a significand, which is multiplied or
divided by a power of ten, so the result may be off by one unit in the last
place; what is too large for a double is refused.

* **`textOfInt_neg`** — the text of a negative integer starts with a minus.
-/
import ScreenHooks.Decimal.Shortest
import ScreenHooks.Json.Basic

namespace ScreenHooks.Json

open Decimal

/-! ### Reading -/

/-- The value of a decimal digit. -/
def digitValue (c : Char) : Nat := c.toNat - '0'.toNat

/-- A significand with the number of digits that did not fit. -/
structure Digits where
  significand : Nat
  /-- Digits that were taken into the significand. -/
  taken : Nat
  /-- Digits that were left out once one did not fit. -/
  dropped : Nat

/-- Appends digits while the significand has at most 64 bits. -/
def Digits.extend (start : Digits) (digits : List Char) : Digits :=
  digits.foldl (fun acc c =>
    let next := acc.significand * 10 + digitValue c
    if acc.dropped = 0 ∧ next < UInt64.size then { acc with significand := next, taken := acc.taken + 1 }
    else { acc with dropped := acc.dropped + 1 }) start

/-- The power of ten with a small exponent as a double. -/
def powerOfTen (n : Nat) : Float := Float.ofScientific 1 false n

/-- `f * 10 ^ exponent`; none if it is too large. An exponent far below zero is
reached in steps of 308. -/
def scale? : Nat → Float → Int → Option Float
  | 0, f, _ => some f
  | steps + 1, f, exponent =>
    if exponent.natAbs ≤ 308 then
      if 0 ≤ exponent then
        let product := f * powerOfTen exponent.natAbs
        if product.isInf then none else some product
      else some (f / powerOfTen exponent.natAbs)
    else if f == 0.0 then some f
    else if 0 ≤ exponent then none
    else scale? steps (f / powerOfTen 308) (exponent + 308)

/-- The double of a significand and a power of ten. -/
def double? (negative : Bool) (significand : Nat) (exponent : Int) : Option Number :=
  (scale? 400 significand.toUInt64.toFloat (max exponent (-100000))).map fun f =>
    .double (if negative then -f else f)

/-- The exponent part, its limit being that of 32-bit integers: beyond it the
number is zero or too large. -/
def withExponent? (negative : Bool) (significand : Nat) (start : Int) (down : Bool)
    (digits : List Char) : Option Number :=
  let size := digits.foldl (fun acc c => acc * 10 + digitValue c) 0
  if Int32.maxValue.toInt < size then
    if significand ≠ 0 ∧ !down then none else some (.double (if negative then -0.0 else 0.0))
  else double? negative significand (if down then start - size else start + size)

/-- Reads the exponent, if there is one, of a number with a fraction or too
many digits. -/
def readExponent (negative : Bool) (significand : Nat) (start : Int) (plain : Option Number) :
    List Char → Option (Number × List Char)
  | c :: r =>
    if c = 'e' ∨ c = 'E' then
      let (down, r) := match r with
        | '-' :: r => (true, r)
        | '+' :: r => (false, r)
        | r => (false, r)
      let digits := r.takeWhile Char.isDigit
      if digits.isEmpty then none
      else (withExponent? negative significand start down digits).map
        fun n => (n, r.dropWhile Char.isDigit)
    else plain.map fun n => (n, c :: r)
  | [] => plain.map fun n => (n, [])

/-- Reads what follows the integer part of a number. -/
def readFraction (negative : Bool) (whole : Digits) (plain : Option Number) :
    List Char → Option (Number × List Char)
  | '.' :: r =>
    let digits := r.takeWhile Char.isDigit
    if digits.isEmpty then none
    else
      let all := Digits.extend { whole with taken := 0, dropped := 0 } digits
      let start := (whole.dropped : Int) - all.taken
      readExponent negative all.significand start (double? negative all.significand start)
        (r.dropWhile Char.isDigit)
  | r => readExponent negative whole.significand whole.dropped plain r

/-- The number without fraction and exponent. -/
def plainNumber (negative : Bool) (whole : Digits) : Option Number :=
  if whole.dropped ≠ 0 then double? negative whole.significand whole.dropped
  else if !negative then some (.integer whole.significand)
  else if whole.significand = 0 ∨ -(whole.significand : Int) < Int64.minValue.toInt then
    double? true whole.significand 0
  else some (.integer (-whole.significand))

/-- Reads a number without its sign; there is no zero before other digits. -/
def readUnsigned (negative : Bool) (cs : List Char) : Option (Number × List Char) :=
  let digits := cs.takeWhile Char.isDigit
  if digits.isEmpty || (digits.head? == some '0' && digits.length != 1) then none
  else
    let whole := Digits.extend ⟨0, 0, 0⟩ digits
    readFraction negative whole (plainNumber negative whole) (cs.dropWhile Char.isDigit)

/-- Reads a number. -/
def readNumber : List Char → Option (Number × List Char)
  | '-' :: r => readUnsigned true r
  | cs => readUnsigned false cs

/-! ### Writing -/

/-- Where a double is written with an exponent. -/
structure DoubleFormat where
  /-- The least decimal exponent written positionally. -/
  least : Int
  /-- The greatest decimal exponent written positionally. -/
  greatest : Int

/-- Doubles from `1e-5` to below `1e16` are written positionally, whole ones
with `.0`; an exponent always has its sign. -/
def doubleFormat : DoubleFormat := ⟨-5, 15⟩

/-- The text of digits whose first one has the given decimal exponent. -/
def positional (digits : List Char) (exponent : Int) : List Char :=
  let (whole, fraction) := aroundPoint digits exponent
  whole ++ '.' :: (if fraction.isEmpty then ['0'] else fraction)

/-- The text of digits with an exponent. -/
def exponential (digits : List Char) (exponent : Int) : List Char :=
  let fraction := digits.drop 1
  digits.take 1 ++ (if fraction.isEmpty then [] else '.' :: fraction) ++
    'e' :: (if exponent < 0 then '-' else '+') :: digitsOf exponent.natAbs

/-- The text of a finite double. -/
def textOfDouble (f : Float) : List Char :=
  let bits := f.toBits
  let sign := if bits >>> 63 = 1 then ['-'] else []
  let magnitude := Dyadic.ofBits bits
  if magnitude.significand = 0 then sign ++ "0.0".toList
  else
    let (digits, exponent) := scientific magnitude.shortest
    sign ++ (if doubleFormat.least ≤ exponent ∧ exponent ≤ doubleFormat.greatest then
      positional digits exponent else exponential digits exponent)

/-- The text of an integer. -/
def textOfInt : Int → List Char
  | .ofNat n => digitsOf n
  | .negSucc n => '-' :: digitsOf (n + 1)

/-- The text of a number. -/
def textOfNumber : Number → List Char
  | .integer z => textOfInt z
  | .double f => textOfDouble f

theorem textOfInt_neg (n : Nat) : textOfInt (.negSucc n) = '-' :: digitsOf (n + 1) := rfl

end ScreenHooks.Json
