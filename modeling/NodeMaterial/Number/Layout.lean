import NodeMaterial.Number.Shortest

/-!
# Digits and a point on paper

A decimal is written from its significant digits and the place of the point:
with `point = p`, the digits `d₁ d₂ …` stand for `0.d₁d₂… * 10 ^ p`.  There is a
positional form, which has digits on both sides of a point and no exponent, and
a scientific form, which has one digit in front of the point.
-/

namespace NodeMaterial

/-- Significant digits and the place of the point. -/
structure Figures where
  digits : List Char
  point : Int
  deriving DecidableEq, Repr

namespace Figures

/-- The figures of a decimal, without zeros at the end. -/
def ofDecimal (decimal : Decimal) : Figures :=
  let digits := Nat.toDigits 10 decimal.digits
  ⟨(digits.reverse.dropWhile (· == '0')).reverse, digits.length + decimal.exponent⟩

/-- Digits on both sides of a point, at least one on each. -/
def positional (figures : Figures) : List Char :=
  if figures.point ≤ 0 then
    '0' :: '.' :: (List.replicate (-figures.point).toNat '0' ++ figures.digits)
  else
    let whole := figures.point.toNat
    if figures.digits.length ≤ whole then
      figures.digits ++ List.replicate (whole - figures.digits.length) '0' ++ ['.', '0']
    else
      figures.digits.take whole ++ '.' :: figures.digits.drop whole

/-- One digit, the other digits after a point if there are any, and a signed exponent. -/
def scientific (figures : Figures) : List Char :=
  let exponent := figures.point - 1
  let power := 'e' :: (if exponent < 0 then '-' else '+') :: Nat.toDigits 10 exponent.natAbs
  match figures.digits with
  | [] => '0' :: power
  | [digit] => digit :: power
  | digit :: others => digit :: '.' :: (others ++ power)

end Figures

end NodeMaterial
