import NodeMaterial.Socket

/-!
# The matrix of a mapping

A mapping scales, rotates about the three axes and translates.  Its matrix has
four columns of four entries, written column by column: the columns of the
rotation, each times the scale of its axis, and the translation.
-/

namespace NodeMaterial.Transform

/-- The number that a bit pattern stands for. -/
def toFloat (number : Binary64) : Float :=
  Float.ofBits number.bits

/-- The bit pattern of a number. -/
def ofFloat (number : Float) : Binary64 :=
  ⟨number.toBits⟩

/-- The three columns of a rotation by angles about the first, second and third axis. -/
def rotationColumns (angles : Triple) : List (List Float) :=
  let sx := (toFloat angles.x).sin
  let cx := (toFloat angles.x).cos
  let sy := (toFloat angles.y).sin
  let cy := (toFloat angles.y).cos
  let sz := (toFloat angles.z).sin
  let cz := (toFloat angles.z).cos
  [[cy * cz, cy * sz, -sy],
   [sy * sx * cz - cx * sz, sy * sx * sz + cx * cz, cy * sx],
   [sy * cx * cz + sx * sz, sy * cx * sz - sx * cz, cy * cx]]

/-- The sixteen entries of the matrix, column by column. -/
def matrix (translation rotation scale : Triple) : List Binary64 :=
  let scaled := (rotationColumns rotation).zip (scale.toList.map toFloat)
  scaled.flatMap (fun (column, factor) => column.map (fun entry => ofFloat (entry * factor)) ++
    [.zero]) ++ translation.toList ++ [.one]

end NodeMaterial.Transform
