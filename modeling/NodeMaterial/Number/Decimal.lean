import NodeMaterial.Number.Binary64

/-!
# Decimals and the doubles nearest to them

A `Decimal` is a natural number of powers of ten.  `Decimal.nearest` rounds it
to the nearest double; a decimal beyond the largest double has no nearest
double.  `Decimal.exact` is the decimal that equals a given double, which
exists because two divides ten.
-/

namespace NodeMaterial

/-- The number `digits * 10 ^ exponent`. -/
structure Decimal where
  digits : Nat
  exponent : Int
  deriving DecidableEq, Repr, Inhabited

namespace Decimal

/-- The numerator of a decimal as a fraction of natural numbers. -/
def numerator (decimal : Decimal) : Nat :=
  decimal.digits * Nat.pow 10 decimal.exponent.toNat

/-- The denominator of a decimal as a fraction of natural numbers. -/
def denominator (decimal : Decimal) : Nat :=
  Nat.pow 10 (-decimal.exponent).toNat

/--
The magnitude nearest to a decimal, ties to even, whether or not it is finite.

A positive decimal with an exponent above `400` is beyond every double, and one
with an exponent far enough below its number of digits is nearest to zero; both
are settled without computing the power of ten.
-/
def nearestMagnitude (decimal : Decimal) : Nat :=
  if decimal.digits = 0 then 0
  else if 400 < decimal.exponent then Binary64.infiniteMagnitude
  else if decimal.exponent + Nat.log2 decimal.digits + 1100 < 0 then 0
  else Binary64.nearestMagnitude decimal.numerator decimal.denominator

/-- The nearest double with a given sign, if the decimal is in range. -/
def nearest (negative : Bool) (decimal : Decimal) : Option Binary64 :=
  let magnitude := decimal.nearestMagnitude
  if magnitude < Binary64.infiniteMagnitude then
    some (Binary64.ofMagnitude negative magnitude)
  else
    none

/-- The nearest double of a decimal, infinite if the decimal is out of range. -/
def toBinary64 (decimal : Decimal) : Binary64 :=
  (decimal.nearest false).getD (Binary64.ofMagnitude false Binary64.infiniteMagnitude)

/-- The decimal that equals the number of a finite magnitude. -/
def exact (magnitude : Nat) : Decimal :=
  ⟨Binary64.units magnitude * Nat.pow 5 1074, -1074⟩

end Decimal

end NodeMaterial
