import CannedApi.Number.Power

/-!
# Finite binary64 values

A finite binary64 value is, up to its sign, a whole number of units of `2 ^ -1074`, and that number
is `mantissa * 2 ^ scale` with at most 53 bits in the mantissa.  Everything here is exact arithmetic
on natural numbers: a quotient is rounded once, to the nearest value and to the even mantissa on a
tie (`nearest`), and `ceilDiv` rounds a value up to a whole number.
-/

namespace CannedApi

/-- The value `mantissa * 2 ^ scale / 2 ^ 1074`, with a sign.  Values made by `nearest` have their
least scale, so equal values are equal records. -/
structure Binary64 where
  negative : Bool
  mantissa : Nat
  scale : Nat
  deriving DecidableEq, Repr, Inhabited

namespace Binary64

/-- the number of units in one -/
def one : Nat := twoTo 1074

/-- the magnitude in units -/
def units (x : Binary64) : Nat := x.mantissa * twoTo x.scale

/-- the largest scale of a finite value -/
def maxScale : Nat := 2045

def zero (negative : Bool) : Binary64 := ⟨negative, 0, 0⟩

/-- `num / den` to the nearest whole number, a half to the even one -/
def divEven (num den : Nat) : Nat :=
  let q := num / den
  let r := num % den
  if den < 2 * r ∨ (2 * r = den ∧ q % 2 = 1) then q + 1 else q

/-- the value nearest to `num / den` units, or nothing if that is beyond the largest one -/
def nearest (negative : Bool) (num den : Nat) : Option Binary64 :=
  let scale := Nat.log2 (num / den) - 52
  let m := divEven num (den * twoTo scale)
  let x : Binary64 := if m = twoTo 53 then ⟨negative, twoTo 52, scale + 1⟩ else ⟨negative, m, scale⟩
  if x.scale ≤ maxScale then some x else none

/-- the value nearest to a whole number -/
def ofNat (n : Nat) : Binary64 := (nearest false (n * one) 1).getD (zero false)

/-- the value nearest to `digits * 10 ^ exponent`, or nothing if that is beyond the largest one -/
def ofDecimal (negative : Bool) (digits : Nat) (exponent : Int) : Option Binary64 :=
  if digits = 0 then some (zero negative)
  else
    let size : Int := (Nat.log2 digits : Int) / 4
    if 310 < exponent + size then none
    else if exponent + (Nat.log2 digits : Int) < -1000 then some (zero negative)
    else if 0 ≤ exponent then nearest negative (digits * tenTo exponent.toNat * one) 1
    else nearest negative (digits * one) (tenTo (-exponent).toNat)

/-- the magnitude rounded up to a whole number -/
def ceil (x : Binary64) : Nat := (x.units + (one - 1)) / one

/-- greater than zero -/
def isPositive (x : Binary64) : Bool := !x.negative && x.mantissa != 0

end Binary64

end CannedApi
