import CannedApi.Number.Binary64
import CannedApi.Text.Digits

/-!
# The shortest decimal that reads back

The real numbers that round to a value form an interval around it, and a decimal reads back as the
value if it lies in there (`readsBack`).  For one digit, two digits and so on, the two neighbours of
the value among the decimals with that many digits are tried; the first count with a neighbour inside
wins, and of two such neighbours the nearer one.
-/

namespace CannedApi

/-- The number `digits * 10 ^ exponent`. -/
structure Decimal where
  digits : Nat
  exponent : Int
  deriving DecidableEq, Repr, Inhabited

namespace Decimal

/-- the decimal in quarter units, as a numerator and a denominator -/
def quarters (d : Decimal) : Nat × Nat :=
  if 0 ≤ d.exponent then (4 * d.digits * tenTo d.exponent.toNat * Binary64.one, 1)
  else (4 * d.digits * Binary64.one, tenTo (-d.exponent).toNat)

end Decimal

namespace Binary64

/-- Half the way to the next smaller value, in quarter units: that gap is half as wide below a power
of two. -/
def gapBelow (x : Binary64) : Nat :=
  if x.mantissa = twoTo 52 ∧ 0 < x.scale then twoTo x.scale else 2 * twoTo x.scale

/-- half the way to the next larger value, in quarter units -/
def gapAbove (x : Binary64) : Nat := 2 * twoTo x.scale

/-- The decimal is nearer to the value than to its neighbours; the ends of the interval count for an
even mantissa. -/
def readsBack (x : Binary64) (d : Decimal) : Bool :=
  let (num, den) := d.quarters
  let lo := (4 * x.units - x.gapBelow) * den
  let hi := (4 * x.units + x.gapAbove) * den
  if x.mantissa % 2 = 0 then lo ≤ num && num ≤ hi else lo < num && num < hi

/-- The value lies nearer to the upper of its two neighbours; half-way the even digits win. -/
def nearerToUpper (x : Binary64) (lower upper : Decimal) : Bool :=
  let (a, den) := lower.quarters
  let (b, den') := upper.quarters
  let v := 4 * x.units
  decide (2 * v * den * den' > a * den' + b * den ∨
    (2 * v * den * den' = a * den' + b * den ∧ lower.digits % 2 = 1))

/-- decimal places beyond which no value has a leading digit -/
def places : Nat := 400

/-- the magnitude times `10 ^ places`, cut to a whole number -/
def expanded (x : Binary64) : Nat := x.units * tenTo places / one

/-- the neighbour with `k` digits that reads back, if there is one; `size` is the number of digits of
`e`, the expanded value -/
def withDigits? (x : Binary64) (e size k : Nat) : Option Decimal :=
  let exponent : Int := (size : Int) - k - places
  let lower : Decimal := ⟨e / tenTo (size - k), exponent⟩
  let upper : Decimal := ⟨lower.digits + 1, exponent⟩
  if x.readsBack lower then
    if x.readsBack upper && x.nearerToUpper lower upper then some upper else some lower
  else if x.readsBack upper then some upper
  else none

/-- the fewest digits that read back, and of those the nearest; seventeen always do -/
def shortest (x : Binary64) : Decimal :=
  if x.mantissa = 0 then ⟨0, 0⟩
  else
    let e := x.expanded
    let size := (Text.decimal e).length
    ((List.range 17).findSome? fun k => x.withDigits? e size (k + 1)).getD ⟨0, 0⟩

end Binary64

end CannedApi
