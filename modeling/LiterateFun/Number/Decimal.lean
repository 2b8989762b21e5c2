import LiterateFun.Number.Basic

/-!
This module contains the decimal text of numbers: the fewest digits that read back as the number,
written out without an exponent.

The digits are found on the grids of multiples of a power of ten, from coarse to fine. The first
grid that has a point among the reals which round to the number yields the fewest digits.
-/

namespace LiterateFun

/-- The magnitude `digits * 10 ^ exponent`. -/
structure Decimal where
  digits : Nat
  exponent : Int
deriving DecidableEq, Repr

namespace Decimal

/--
A positive real `value / unit` together with the interval from `low / unit` to `high / unit` around
it.
-/
structure Interval where
  low : Nat
  value : Nat
  high : Nat
  unit : Nat
  /-- Whether the ends belong to the interval. -/
  closed : Bool
deriving DecidableEq, Repr

namespace Interval

/-- The reals that round to a finite number of magnitude `m * 2 ^ q` other than zero. -/
def ofNumber (x : Number) : Interval :=
  let m := x.significand
  let low := if x.isBinadeStart then 4 * m - 1 else 4 * m - 2
  match x.scale - 2 with
  | .ofNat q =>
    { low := low <<< q, value := (4 * m) <<< q, high := (4 * m + 2) <<< q, unit := 1,
      closed := m % 2 = 0 }
  | .negSucc q =>
    { low, value := 4 * m, high := 4 * m + 2, unit := 1 <<< (q + 1), closed := m % 2 = 0 }

def measuredIn (i : Interval) (exponent : Int) : Interval :=
  match exponent with
  | .ofNat k => { i with unit := i.unit * Nat.pow 10 k }
  | .negSucc k =>
    let scale := Nat.pow 10 (k + 1)
    { i with low := i.low * scale, value := i.value * scale, high := i.high * scale }

def contains (i : Interval) (n : Nat) : Bool :=
  if i.closed then
    i.low ≤ n * i.unit ∧ n * i.unit ≤ i.high
  else
    i.low < n * i.unit ∧ n * i.unit < i.high

/--
The integer of the interval nearest to its value, if one of the two integers around the value is in
the interval. The upper one is taken where both are equally near.
-/
def nearest? (i : Interval) : Option Nat :=
  let below := i.value / i.unit
  let isUpperHalf := i.unit ≤ 2 * (i.value % i.unit)
  match i.contains below, i.contains (below + 1) with
  | true, true => some (if isUpperHalf then below + 1 else below)
  | true, false => some below
  | false, true => some (below + 1)
  | false, false => none

/-- Search the grids of a number of powers of ten, from `exponent` downwards. -/
def search (i : Interval) (exponent : Int) : Nat → Option Decimal
  | 0 => none
  | grids + 1 =>
    match (i.measuredIn exponent).nearest? with
    | some digits => some { digits, exponent }
    | none => i.search (exponent - 1) grids

end Interval

/--
The decimal with the fewest digits that reads back as the magnitude of a finite number, and of those
the nearest to it. The search starts above the number and ends with a grid on which it lies itself.
-/
def shortest (x : Number) : Decimal :=
  let i := Interval.ofNumber x
  let highest := (Nat.toDigits 10 (i.value / i.unit)).length
  let lowest := min x.scale 0
  (i.search highest (highest - lowest + 1).toNat).getD { digits := 0, exponent := 0 }

def zeros (n : Nat) : String :=
  String.ofList (List.replicate n '0')

def text (d : Decimal) : String :=
  let digits := Nat.toDigits 10 d.digits
  match d.exponent with
  | .ofNat k => String.ofList digits ++ zeros k
  | .negSucc k =>
    let places := k + 1
    if places < digits.length then
      String.ofList (digits.take (digits.length - places)) ++ "."
        ++ String.ofList (digits.drop (digits.length - places))
    else
      "0." ++ zeros (places - digits.length) ++ String.ofList digits

end Decimal

namespace Number

def text (x : Number) : String :=
  if x.isNaN then
    "NaN"
  else
    (if x.isNegative then "-" else "") ++
      if !x.isFinite then "inf"
      else if x.significand = 0 then "0"
      else (Decimal.shortest x).text

end Number

end LiterateFun
