import NodeMaterial.Number.Decimal

/-!
# The fewest digits that read back

`Decimal.shortest` gives, for a finite magnitude other than zero, a decimal
with as few digits as possible whose nearest double is the given one.  On each
grid of decimals, from one digit on, the two neighbours of the number are
tried; of two that read back the nearer is taken, and a rule settles a tie.

Every decimal given by the search reads back because reading back is what the
search tests, and seventeen digits always suffice; the exact expansion stands
at the end of the search so that no argument about digits is needed for that.
-/

namespace NodeMaterial

/-- What to do when two decimals are equally near. -/
inductive TieRule where
  | toEven
  | awayFromZero
  deriving DecidableEq, Repr

namespace Decimal

/-- The number of decimal digits of a natural number. -/
def digitCount (number : Nat) : Nat :=
  (Nat.toDigits 10 number).length

/--
The least `place` such that a positive number of units is below `10 ^ place`.
The quotient is taken with `330` further places, which the least positive
double fills.
-/
def leadingPlace (units : Nat) : Int :=
  (digitCount (units * Nat.pow 10 330 / Binary64.unitsPerOne) : Int) - 330

/--
The neighbours of a number of units on the grid of multiples of
`10 ^ exponent`, the preferred one first.
-/
def neighbours (tie : TieRule) (units : Nat) (exponent : Int) : List Decimal :=
  let numerator := units * Nat.pow 10 (-exponent).toNat
  let denominator := Binary64.unitsPerOne * Nat.pow 10 exponent.toNat
  let floor := numerator / denominator
  let twice := 2 * (numerator % denominator)
  let lower : Decimal := ⟨floor, exponent⟩
  let upper : Decimal := ⟨floor + 1, exponent⟩
  let lowerFirst : Bool :=
    if twice < denominator then true
    else if denominator < twice then false
    else match tie with
      | .toEven => floor % 2 == 0
      | .awayFromZero => false
  if lowerFirst then [lower, upper] else [upper, lower]

/-- Whether the nearest double of a decimal has a given magnitude. -/
def readsBack (magnitude : Nat) (decimal : Decimal) : Bool :=
  decimal.nearestMagnitude == magnitude

/-- A decimal with the fewest digits whose nearest double has the magnitude. -/
def shortest (tie : TieRule) (magnitude : Nat) : Decimal :=
  let units := Binary64.units magnitude
  let place := leadingPlace units
  let candidate (digits : Nat) : Option Decimal :=
    (neighbours tie units (place - digits)).find? (readsBack magnitude)
  ((List.range' 1 17).findSome? candidate).getD (exact magnitude)

end Decimal

end NodeMaterial
