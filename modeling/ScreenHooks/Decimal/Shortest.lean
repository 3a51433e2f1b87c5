/-
The fewest decimal digits that read back as a double.

A positive finite double is `m * 2 ^ q`; the reals that round to it form an
interval whose ends belong to it when `m` is even. For one digit, two digits
and so on, the two neighbours of the value on that decimal grid are tested in
exact arithmetic; the first grid with a neighbour in the interval wins, and of
two neighbours the nearer one.

* **`digitsOf_length`** — a number has at least one digit.
-/

namespace ScreenHooks.Decimal

/-- A positive number `significand * 2 ^ exponent`. -/
structure Dyadic where
  significand : Nat
  exponent : Int
  /-- Whether the next smaller double is only half as far away as the next
  larger one. -/
  boundary : Bool

/-- The magnitude of a finite double given by its bits. -/
def Dyadic.ofBits (bits : UInt64) : Dyadic :=
  let field := (bits >>> 52).toNat % 0x800
  let fraction := bits.toNat % (1 <<< 52)
  if field = 0 then ⟨fraction, -1074, false⟩
  else ⟨fraction + (1 <<< 52), (field : Int) - 1075, fraction = 0 ∧ 1 < field⟩

/-- The power of ten with the given exponent. -/
def tens (n : Nat) : Nat := Nat.pow 10 n

/-- Whether `a * 10 ^ p < b * 2 ^ s`. -/
def lessThan (a : Nat) (p : Int) (b : Nat) (s : Int) : Bool :=
  (a * tens p.toNat) <<< (-s).toNat < (b * tens (-p).toNat) <<< s.toNat

/-- Whether `a * 10 ^ p = b * 2 ^ s`. -/
def equals (a : Nat) (p : Int) (b : Nat) (s : Int) : Bool :=
  (a * tens p.toNat) <<< (-s).toNat = (b * tens (-p).toNat) <<< s.toNat

namespace Dyadic

/-- Whether `a * 10 ^ p` rounds to the number. -/
def absorbs (x : Dyadic) (a : Nat) (p : Int) : Bool :=
  -- the ends of the interval, in quarters of the last binary place
  let low := 4 * x.significand - (if x.boundary then 1 else 2)
  let high := 4 * x.significand + 2
  let s := x.exponent - 2
  let closed := x.significand % 2 == 0
  let aboveLow := !lessThan a p low s && (closed || !equals a p low s)
  let belowHigh := lessThan a p high s || (closed && equals a p high s)
  aboveLow && belowHigh

/-- The largest `a` with `a * 10 ^ p` at most the number. -/
def floorAt (x : Dyadic) (p : Int) : Nat :=
  ((x.significand * tens (-p).toNat) <<< x.exponent.toNat) / (tens p.toNat <<< (-x.exponent).toNat)

/-- Whether the number is nearer to `a * 10 ^ p` than to `(a + 1) * 10 ^ p`; an
even `a` wins a tie. -/
def nearerBelow (x : Dyadic) (a : Nat) (p : Int) : Bool :=
  let s := x.exponent + 1
  !lessThan (2 * a + 1) p x.significand s &&
    (!equals (2 * a + 1) p x.significand s || a % 2 == 0)

/-- The decimal on the grid of `10 ^ p` that rounds to the number. -/
def onGrid? (x : Dyadic) (p : Int) : Option Nat :=
  let a := x.floorAt p
  match x.absorbs a p, x.absorbs (a + 1) p with
  | true, true => some (if x.nearerBelow a p then a else a + 1)
  | true, false => some a
  | false, true => some (a + 1)
  | false, false => none

/-- The position of the leading decimal digit: the exponent of the largest
power of ten that is at most the number. -/
def leading (x : Dyadic) : Int := ((Nat.toDigits 10 (x.floorAt (-400))).length : Int) - 401

/-- The decimal with the fewest digits, at most seventeen, that rounds to the
number. -/
def shortest (x : Dyadic) : Nat × Int :=
  let grids := (List.range 17).map fun (n : Nat) => x.leading - (n : Int)
  match grids.findSome? fun p => (x.onGrid? p).map fun a => (a, p) with
  | some found => found
  | none => (x.floorAt (x.leading - 16), x.leading - 16)

end Dyadic

/-! ### Digits -/

/-- The decimal digits of a number. -/
def digitsOf (n : Nat) : List Char := Nat.toDigits 10 n

/-- Digits and the exponent of the first of them, without zeros at the end. -/
def scientific (decimal : Nat × Int) : List Char × Int :=
  let digits := digitsOf decimal.1
  let kept := (digits.reverse.dropWhile (· == '0')).reverse
  (if kept.isEmpty then ['0'] else kept, decimal.2 + (digits.length : Int) - 1)

/-- The digits before and after the decimal point of a number whose first digit
has the given exponent. -/
def aroundPoint (digits : List Char) (exponent : Int) : List Char × List Char :=
  if exponent < 0 then (['0'], List.replicate (-exponent - 1).toNat '0' ++ digits)
  else
    let whole := exponent.toNat + 1
    let padded := digits ++ List.replicate (whole - digits.length) '0'
    (padded.take whole, padded.drop whole)

theorem digitsOf_length (n : Nat) : 0 < (digitsOf n).length := Nat.length_toDigits_pos

end ScreenHooks.Decimal
