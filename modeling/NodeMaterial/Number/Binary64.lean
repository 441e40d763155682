/-!
# Double-precision numbers by their bit pattern

A `Binary64` is the bit pattern of a double.  Equality of patterns is
decidable and tells the two zeros apart, which is what authored trees need.

Without its sign bit a pattern is a natural number, the *magnitude*.  Finite
magnitudes are ordered like the numbers that they stand for, and the number of
magnitude `M` is `significand M * 2 ^ scale M` units, a unit being
`2 ^ (-1074)`, the distance from zero to the next double.
-/

namespace NodeMaterial

/-- A double, given by its sixty-four bits. -/
structure Binary64 where
  bits : UInt64
  deriving DecidableEq, Repr, Inhabited

namespace Binary64

/-- The weight of the sign bit. -/
def signWeight : Nat := 0x8000000000000000

/-- The number of fractions that share one exponent. -/
def binade : Nat := 0x10000000000000

/-- The magnitude of the infinities; larger magnitudes are not numbers. -/
def infiniteMagnitude : Nat := 2047 * binade

/-- How many units make up one. -/
def unitsPerOne : Nat := Nat.pow 2 1074

/-- The pattern with the sign bit taken off. -/
def magnitude (number : Binary64) : Nat :=
  number.bits.toNat % signWeight

/-- Whether the sign bit is set, as it is for the negative zero. -/
def isNegative (number : Binary64) : Bool :=
  decide (signWeight ≤ number.bits.toNat)

/-- Whether a double is neither infinite nor undefined. -/
def isFinite (number : Binary64) : Bool :=
  decide (number.magnitude < infiniteMagnitude)

/-- Both zeros are zero. -/
def isZero (number : Binary64) : Bool :=
  number.magnitude == 0

/-- The double with a given sign and magnitude. -/
def ofMagnitude (negative : Bool) (magnitude : Nat) : Binary64 :=
  ⟨UInt64.ofNat (if negative then signWeight + magnitude else magnitude)⟩

/-- How often the significand of a magnitude is doubled. -/
def scale (magnitude : Nat) : Nat :=
  magnitude / binade - 1

/-- The significand of a magnitude, below `2 * binade`. -/
def significand (magnitude : Nat) : Nat :=
  magnitude - scale magnitude * binade

/-- The number of units that a finite magnitude stands for. -/
def units (magnitude : Nat) : Nat :=
  significand magnitude * Nat.pow 2 (scale magnitude)

/-- Whether a finite magnitude stands for a whole number. -/
def isWhole (magnitude : Nat) : Bool :=
  units magnitude % unitsPerOne == 0

def zero : Binary64 := ⟨0⟩

def one : Binary64 := ofMagnitude false (1023 * binade)

/-- One for an option that is on, zero for one that is off. -/
def ofFlag (on : Bool) : Binary64 :=
  if on then one else zero

/-- A quotient rounded to the nearest natural number, a half to the even one. -/
def roundQuotient (numerator denominator : Nat) : Nat :=
  let floor := numerator / denominator
  let twice := 2 * (numerator % denominator)
  if twice < denominator then floor
  else if denominator < twice then floor + 1
  else floor + floor % 2

/--
The magnitude nearest to `numerator / denominator`, ties to even.

With the doubling chosen so that the quotient has fifty-three bits, the rounded
significand is added to the patterns of all smaller exponents; a significand
that rounds up to `2 * binade` thereby moves to the next exponent by itself.
-/
def nearestMagnitude (numerator denominator : Nat) : Nat :=
  let scaled := numerator * unitsPerOne
  let doublings := Nat.log2 (scaled / denominator) - 52
  doublings * binade + roundQuotient scaled (denominator * Nat.pow 2 doublings)

end Binary64

end NodeMaterial
