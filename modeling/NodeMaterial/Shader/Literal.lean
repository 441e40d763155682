import NodeMaterial.Number.Layout
import NodeMaterial.Socket

/-!
# Shader literals

A double is written so that GLSL reads it as a float: with digits on both sides
of a point and never with an exponent.  A whole number is written out in full;
any other finite number has the fewest digits that read back, of two equally
near ones the larger.  What is not finite has no spelling and becomes `0.0`.

A value of several components becomes a constructor call.
-/

namespace NodeMaterial.Shader

/-- The digits of a whole number of finite magnitude. -/
def wholeDigits (magnitude : Nat) : List Char :=
  Nat.toDigits 10 (Binary64.units magnitude / Binary64.unitsPerOne)

/-- The literal of a finite magnitude. -/
def unsignedLiteral (magnitude : Nat) : List Char :=
  if Binary64.isWhole magnitude then
    wholeDigits magnitude ++ ['.', '0']
  else
    (Figures.ofDecimal (Decimal.shortest .awayFromZero magnitude)).positional

/-- The literal of a double. -/
def floatLiteral (number : Binary64) : String :=
  if number.isFinite then
    let unsigned := unsignedLiteral number.magnitude
    String.ofList (if number.isNegative then '-' :: unsigned else unsigned)
  else
    "0.0"

/--
The components of a value asked for in a given dimension.  Dimension zero takes
the value as it is; otherwise a scalar is repeated and a vector is cut or filled
up with zeros.
-/
def sized (dimension : Nat) (value : SocketValue) : List Binary64 :=
  match dimension, value with
  | 0, value => value.components
  | dimension, .scalar component => List.replicate dimension component
  | dimension, .vector components =>
      components.take dimension ++ List.replicate (dimension - components.length) .zero

/-- The name of the constructor of so many components. -/
def constructorName (count : Nat) : String :=
  match count with
  | 2 => "vec2"
  | 3 => "vec3"
  | 4 => "vec4"
  | 9 => "mat3"
  | 16 => "mat4"
  | count => "float[" ++ toString count ++ "]"

/-- The literal of a value in a given dimension. -/
def literal (dimension : Nat) (value : SocketValue) : String :=
  match sized dimension value with
  | [] => "0.0"
  | [component] => floatLiteral component
  | components =>
      constructorName components.length ++
        "(" ++ String.intercalate ", " (components.map floatLiteral) ++ ")"

end NodeMaterial.Shader
