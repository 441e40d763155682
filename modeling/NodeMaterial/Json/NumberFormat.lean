import NodeMaterial.Json.Scan
import NodeMaterial.Number.Layout

/-!
# The texts of numbers

How doubles are written and read is a parameter of the format.  JSON fixes the
grammar of numerals, which the scanner knows; the digits that a writer picks and
the double that a reader rounds to are up to a `NumberFormat`.

The program runs with `NumberFormat.shortest`.  It writes the fewest digits that
read back, positionally from `0.00001` up to sixteen digits in front of the point
and scientifically outside that range, and it reads the nearest double.
-/

namespace NodeMaterial.Json

/-- A way to write finite doubles, and to read numerals unless they are out of range. -/
structure NumberFormat where
  write : Binary64 → List Char
  read : List Char → Option Binary64

namespace NumberFormat

/-- The text of a double; one that is not finite has no numeral and is written as `null`. -/
def text (format : NumberFormat) (double : Binary64) : List Char :=
  if double.isFinite then format.write double else ['n', 'u', 'l', 'l']

end NumberFormat

/-- The fewest digits that stand for a finite double, with its sign and a point. -/
def shortestNumeral (number : Binary64) : List Char :=
  let unsigned :=
    if number.isZero then
      ['0', '.', '0']
    else
      let figures := Figures.ofDecimal (Decimal.shortest .toEven number.magnitude)
      if -5 < figures.point ∧ figures.point ≤ 16 then
        figures.positional
      else
        figures.scientific
  if number.isNegative then '-' :: unsigned else unsigned

/-- The double nearest to a numeral. -/
def nearestDouble? (numeral : List Char) : Option Binary64 :=
  match scanNumeral numeral with
  | .ok (number, []) => number.decimal.nearest number.negative
  | _ => none

/-- Writes the fewest digits that read back, and reads the nearest double. -/
def NumberFormat.shortest : NumberFormat where
  write := shortestNumeral
  read := nearestDouble?

end NodeMaterial.Json
