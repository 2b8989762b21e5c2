import LiterateFun.Number.Basic

/-!
This module contains numerals, the digits of a number as they stand in a source, and their values.
-/

namespace LiterateFun

structure Numeral where
  radix : Nat
  whole : List Nat
  fraction : List Nat
deriving DecidableEq, Repr

namespace Numeral

def digit? (radix : Nat) (c : Char) : Option Nat :=
  let digit :=
    if c.isDigit then c.toNat - '0'.toNat
    else if c.isLower then c.toNat - 'a'.toNat + 10
    else if c.isUpper then c.toNat - 'A'.toNat + 10
    else radix
  if digit < radix then some digit else none

def isDigit (radix : Nat) (c : Char) : Bool :=
  (digit? radix c).isSome

theorem isDigit_ten {c : Char} (h : c.isDigit) : isDigit 10 c := by
  have : c.toNat - 48 < 10 := by
    simp only [Char.isDigit, ge_iff_le, Bool.and_eq_true, decide_eq_true_eq,
      UInt32.le_iff_toNat_le] at h
    have h9 : '9'.val.toNat = 57 := rfl
    have hc : c.toNat = c.val.toNat := rfl
    omega
  simp [isDigit, digit?, h, this]

def radix? : Char → Option Nat
  | 'x' => some 16
  | 'o' => some 8
  | 'b' => some 2
  | _ => none

/-- The value of a list of digits, rounded after every digit. -/
def accumulate (radix : Nat) (digits : List Nat) : Float :=
  digits.foldl (fun value digit => value * Float.ofNat radix + Float.ofNat digit) 0

/-- Raise to a power by repeated squaring, rounded after every product. -/
def power (base : Float) (exponent : Nat) : Float :=
  go 1 base exponent
where
  go (product base : Float) (exponent : Nat) : Float :=
    let product := if exponent % 2 = 1 then product * base else product
    if exponent / 2 = 0 then product else go product (base * base) (exponent / 2)
  termination_by exponent

/--
The value of a numeral. The digits after the point are divided by their place value all at once,
which keeps short fractions such as `0.3` correctly rounded.
-/
def value (n : Numeral) : Number :=
  .ofFloat <| accumulate n.radix n.whole
    + accumulate n.radix n.fraction / power (Float.ofNat n.radix) n.fraction.length

end Numeral

end LiterateFun
