/-!
This module contains the numbers of the language. They are IEEE 754 doubles, held as bit patterns so
that equality of numbers is equality of patterns.
-/

namespace LiterateFun

/-- An IEEE 754 double, as its bit pattern. -/
structure Number where
  bits : UInt64
deriving DecidableEq, Repr, Inhabited

namespace Number

def ofFloat (x : Float) : Number where
  bits := x.toBits

def isNegative (x : Number) : Bool :=
  x.bits >>> 63 = 1

def exponentField (x : Number) : Nat :=
  (x.bits >>> 52 &&& 0x7ff).toNat

def fractionField (x : Number) : Nat :=
  (x.bits &&& 0xfffffffffffff).toNat

def isFinite (x : Number) : Bool :=
  x.exponentField ≠ 2047

def isNaN (x : Number) : Bool :=
  x.exponentField = 2047 ∧ x.fractionField ≠ 0

/-- The `m` of a finite number of magnitude `m * 2 ^ q`. -/
def significand (x : Number) : Nat :=
  if x.exponentField = 0 then x.fractionField else 0x10000000000000 + x.fractionField

/-- The `q` of a finite number of magnitude `m * 2 ^ q`. -/
def scale (x : Number) : Int :=
  if x.exponentField = 0 then -1074 else x.exponentField - 1075

def isBinadeStart (x : Number) : Bool :=
  x.fractionField = 0 ∧ 1 < x.exponentField

end Number

end LiterateFun
