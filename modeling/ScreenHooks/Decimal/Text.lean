/-
Decimal texts of integers and doubles.

An integer is digits after an optional sign. A double has digits before or
after a point and may have an exponent; it is the double nearest to that
decimal. The text of a double is positional whatever its size, and a whole one
has no point.

* **`natural?_digitsOf`** — reading the digits of a number gives it back.
-/
import ScreenHooks.Decimal.Shortest

namespace ScreenHooks.Decimal

/-! ### Integers -/

/-- The value of digits. -/
def valueOf (digits : List Char) : Nat := Nat.ofDigitChars 10 digits 0

/-- The number that digits stand for. -/
def natural? (cs : List Char) : Option Nat :=
  if cs.isEmpty || !cs.all Char.isDigit then none else some (valueOf cs)

/-- A sign at the front, and what follows it. -/
def splitSign : List Char → Bool × List Char
  | '-' :: r => (true, r)
  | '+' :: r => (false, r)
  | r => (false, r)

/-- The integer that digits after an optional sign stand for. -/
def integer? (cs : List Char) : Option Int :=
  let (negative, digits) := splitSign cs
  (natural? digits).map fun (n : Nat) => if negative then -(n : Int) else n

/-! ### Doubles -/

/-- The double that is greater than every number. -/
def infinity : Float := 1.0 / 0.0

/-- The double nearest to `digits * 10 ^ exponent`. What is out of range is told
by the place of the leading digit. -/
def nearest (digits : Nat) (exponent : Int) : Float :=
  let size := exponent + (digitsOf digits).length
  if digits = 0 ∨ size < -330 then 0.0
  else if 330 < size then infinity
  else Float.ofScientific digits (exponent < 0) exponent.natAbs

/-- The exponent that follows the digits of a double. -/
def exponent? : List Char → Option Int
  | [] => some 0
  | c :: r => if c = 'e' ∨ c = 'E' then integer? r else none

/-- The double of a text without a sign. -/
def magnitude? (cs : List Char) : Option Float :=
  let whole := cs.takeWhile Char.isDigit
  let (fraction, rest) := match cs.dropWhile Char.isDigit with
    | '.' :: r => (r.takeWhile Char.isDigit, r.dropWhile Char.isDigit)
    | r => ([], r)
  if whole.isEmpty && fraction.isEmpty then none
  else (exponent? rest).map fun e =>
    nearest (valueOf (whole ++ fraction)) (e - (fraction.length : Int))

/-- The text of a double. -/
def textOf (f : Float) : List Char :=
  let bits := f.toBits
  let sign := if bits >>> 63 = 1 then ['-'] else []
  let magnitude := Dyadic.ofBits bits
  if f.isNaN then "NaN".toList
  else if f.isInf then sign ++ "inf".toList
  else if magnitude.significand = 0 then sign ++ ['0']
  else
    let (digits, exponent) := scientific magnitude.shortest
    let (whole, fraction) := aroundPoint digits exponent
    sign ++ whole ++ (if fraction.isEmpty then [] else '.' :: fraction)

/-! ### Laws -/

theorem valueOf_digitsOf (n : Nat) : valueOf (digitsOf n) = n := by
  simp [valueOf, digitsOf]

theorem natural?_digitsOf (n : Nat) : natural? (digitsOf n) = some n := by
  have hne : digitsOf n ≠ [] := List.ne_nil_of_length_pos (digitsOf_length n)
  have hdigits : (digitsOf n).all Char.isDigit = true := by
    rw [List.all_eq_true]
    exact fun c hc => Nat.isDigit_of_mem_toDigits (by decide) (by decide) hc
  simp [natural?, hne, hdigits, valueOf_digitsOf]

end ScreenHooks.Decimal
