import NodeMaterial.Proofs.Rounding
import NodeMaterial.Shader.Literal

/-!
# Shader literals stand for their values

A literal has a sign or none, digits, a point and digits, and so it names an exact
rational number.  The double nearest to that number is the one the literal was made
from; only what is not finite is written as `0.0`.  The constant of a value lists
one literal for each component that it is asked for.
-/

namespace NodeMaterial

open Json (SomeDigits digitsValue)

namespace Shader

/-! ## The form of a literal -/

/-- A literal taken apart: a sign, the digits before the point and those behind it. -/
structure Spelling where
  negative : Bool
  whole : List Char
  fraction : List Char

namespace Spelling

/-- The characters of a literal. -/
def text (spelling : Spelling) : List Char :=
  (if spelling.negative then ['-'] else []) ++ spelling.whole ++ '.' :: spelling.fraction

/-- There are digits on both sides of the point, and nothing but digits. -/
structure Proper (spelling : Spelling) : Prop where
  whole : SomeDigits spelling.whole
  fraction : SomeDigits spelling.fraction

/-- The exact number that a literal names. -/
def value (spelling : Spelling) : ℚ :=
  Binary64.signed spelling.negative
    (digitsValue (spelling.whole ++ spelling.fraction) / 10 ^ spelling.fraction.length)

/-- The number that a literal names without its sign. -/
def decimal (spelling : Spelling) : Decimal :=
  ⟨digitsValue (spelling.whole ++ spelling.fraction), -spelling.fraction.length⟩

/-- A spelling denotes the fraction of its digits. -/
theorem value_eq (spelling : Spelling) :
    spelling.value = Binary64.signed spelling.negative
      (spelling.decimal.numerator / spelling.decimal.denominator) := by
  have top : spelling.decimal.numerator =
      digitsValue (spelling.whole ++ spelling.fraction) := by
    simp [Decimal.numerator, decimal]
  have bottom : spelling.decimal.denominator = 10 ^ spelling.fraction.length := by
    simp [Decimal.denominator, decimal]
  rw [value, top, bottom, Nat.cast_pow, Nat.cast_ofNat]

theorem toList_signed {spelling : Spelling} {negative : Bool} {unsigned : List Char}
    (sign : spelling.negative = negative)
    (digits : unsigned = spelling.whole ++ '.' :: spelling.fraction) :
    (String.ofList (if negative then '-' :: unsigned else unsigned)).toList = spelling.text := by
  subst sign digits
  rw [text, String.toList_ofList]
  split <;> simp

variable {first second : Spelling}

/-- The sign is seen in the first character. -/
theorem Proper.head_text (proper : first.Proper) :
    first.text.head? = some '-' ↔ first.negative = true := by
  cases sign : first.negative with
  | true => simp [text, sign]
  | false =>
      have front : first.text.head? = first.whole.head? := by
        simp [text, sign, List.head?_append_of_ne_nil _ proper.whole.nonempty]
      rw [front]
      refine ⟨fun minus => ?_, nofun⟩
      exact absurd (List.mem_of_mem_head? minus) (proper.whole.notMem (by decide))

/-- A text is taken apart in one way only. -/
theorem eq_of_text (firstProper : first.Proper) (secondProper : second.Proper)
    (same : first.text = second.text) : first = second := by
  have sign : first.negative = second.negative := by
    rw [Bool.eq_iff_iff, ← firstProper.head_text, same, secondProper.head_text]
  have digits : first.whole ++ '.' :: first.fraction = second.whole ++ '.' :: second.fraction := by
    simpa only [text, sign, List.append_assoc, List.append_cancel_left_eq] using same
  obtain ⟨wholes, -, fractions⟩ := (List.append_cons_inj_of_notMem
    (firstProper.whole.notMem (by decide)) (firstProper.fraction.notMem (by decide))).1 digits
  cases first
  cases second
  cases sign
  cases wholes
  cases fractions
  rfl

end Spelling

/--
A text is a literal of a double: it has the form of one, and among the doubles of
its sign exactly the given one is nearest to the number that it names.  There is no
such literal for a double that is not finite, which is written as zero.
-/
structure Spells (text : String) (number : Binary64) : Prop where
  formed : ∃ spelling : Spelling, spelling.Proper ∧ spelling.text = text.toList
  nearest : number.isFinite = true →
    ∀ spelling : Spelling, spelling.Proper → spelling.text = text.toList →
      ∀ double : Binary64,
        double.IsNearest spelling.value ∧ double.isNegative = spelling.negative ↔ double = number
  unspelled : number.isFinite = false → text = "0.0"

/-! ## The literal of a double -/

/-- How a finite double is spelled: a whole number in full, any other with its figures. -/
def spellingOf (number : Binary64) : Spelling :=
  if Binary64.isWhole number.magnitude then
    ⟨number.isNegative, wholeDigits number.magnitude, ['0']⟩
  else
    let parts :=
      (Figures.ofDecimal (Decimal.shortest .awayFromZero number.magnitude)).positionalParts
    ⟨number.isNegative, parts.whole, parts.fraction.getD []⟩

variable {number : Binary64}

theorem spellingOf_of_isWhole (whole : Binary64.isWhole number.magnitude = true) :
    spellingOf number = ⟨number.isNegative, wholeDigits number.magnitude, ['0']⟩ :=
  if_pos whole

theorem spellingOf_of_not_isWhole (broken : ¬ Binary64.isWhole number.magnitude = true) :
    ∃ whole fraction,
      (Figures.ofDecimal (Decimal.shortest .awayFromZero number.magnitude)).positionalParts =
        ⟨whole, some fraction, none⟩ ∧
      spellingOf number = ⟨number.isNegative, whole, fraction⟩ := by
  obtain ⟨whole, fraction, plain⟩ := Figures.exists_positionalParts
    (Figures.ofDecimal (Decimal.shortest .awayFromZero number.magnitude))
  refine ⟨whole, fraction, plain, ?_⟩
  rw [spellingOf, if_neg broken, plain]
  rfl

@[simp]
theorem negative_spellingOf (number : Binary64) :
    (spellingOf number).negative = number.isNegative := by
  rw [spellingOf]
  split <;> rfl

theorem unsignedLiteral_eq (number : Binary64) :
    unsignedLiteral number.magnitude =
      (spellingOf number).whole ++ '.' :: (spellingOf number).fraction := by
  by_cases whole : Binary64.isWhole number.magnitude = true
  · rw [unsignedLiteral, if_pos whole, spellingOf_of_isWhole whole]
  · obtain ⟨before, behind, plain, spelled⟩ := spellingOf_of_not_isWhole whole
    rw [unsignedLiteral, if_neg whole, ← Figures.text_positionalParts, plain, spelled]
    exact List.append_nil _

theorem toList_floatLiteral (finite : number.isFinite = true) :
    (floatLiteral number).toList = (spellingOf number).text := by
  rw [floatLiteral, if_pos finite]
  exact Spelling.toList_signed (negative_spellingOf number) (unsignedLiteral_eq number)

theorem magnitude_ne_zero (broken : ¬ Binary64.isWhole number.magnitude = true) :
    number.magnitude ≠ 0 := by
  intro zero
  apply broken
  rw [Binary64.isWhole, zero, Binary64.units_zero, Nat.zero_mod]
  rfl

/-- There are digits on both sides of the point. -/
theorem proper_spellingOf (finite : number.isFinite = true) : (spellingOf number).Proper := by
  by_cases whole : Binary64.isWhole number.magnitude = true
  · rw [spellingOf_of_isWhole whole]
    exact ⟨Json.someDigits_toDigits _, Json.someDigits_zero⟩
  · obtain ⟨before, behind, plain, spelled⟩ := spellingOf_of_not_isWhole whole
    have digits := Decimal.digits_shortest_pos .awayFromZero
      (Binary64.lt_infiniteMagnitude finite) (magnitude_ne_zero whole)
    have proper := Figures.proper_positionalParts (Figures.proper_ofDecimal digits)
    rw [plain] at proper
    rw [spelled]
    exact ⟨proper.whole, proper.fraction behind rfl⟩

/-- The digits of a whole number are exact. -/
theorem nearestMagnitude_of_isWhole (finite : number.isFinite = true)
    (whole : Binary64.isWhole number.magnitude = true) :
    (spellingOf number).decimal.nearestMagnitude = number.magnitude := by
  set units := Binary64.units number.magnitude with unitsEq
  have counted : units / Binary64.unitsPerOne * Binary64.unitsPerOne = units :=
    Nat.div_mul_cancel (Nat.dvd_of_mod_eq_zero (eq_of_beq whole))
  have digits : digitsValue (wholeDigits number.magnitude ++ ['0']) =
      units / Binary64.unitsPerOne * 10 := by
    simp [Json.digitsValue_append, wholeDigits, Json.digitsValue_zero, unitsEq]
  rw [Decimal.nearestMagnitude_eq_iff (Binary64.lt_infiniteMagnitude finite),
    spellingOf_of_isWhole whole]
  apply Binary64.nearestMagnitude_units (Decimal.denominator_pos _)
  calc digitsValue (wholeDigits number.magnitude ++ ['0']) * 1 * Binary64.unitsPerOne
      = units / Binary64.unitsPerOne * Binary64.unitsPerOne * 10 := by
        rw [digits]
        ring
    _ = units * 10 := by rw [counted]

/-- The figures of any other number are chosen to read back. -/
theorem nearestMagnitude_of_not_isWhole (finite : number.isFinite = true)
    (broken : ¬ Binary64.isWhole number.magnitude = true) :
    (spellingOf number).decimal.nearestMagnitude = number.magnitude := by
  have bound := Binary64.lt_infiniteMagnitude finite
  obtain ⟨before, behind, plain, spelled⟩ := spellingOf_of_not_isWhole broken
  have same : (spellingOf number).decimal =
      (Figures.ofDecimal
        (Decimal.shortest .awayFromZero number.magnitude)).positionalParts.decimal := by
    simp [spelled, plain, Spelling.decimal, Json.NumeralParts.decimal]
  rw [same, Decimal.reads_iff_of_sameValue (Figures.sameValue_positionalParts _) bound,
    Decimal.reads_iff_of_sameValue (Figures.sameValue_ofDecimal _) bound]
  exact Decimal.nearestMagnitude_shortest .awayFromZero bound

/-- The digits of a literal round to the double that they spell. -/
theorem nearestMagnitude_spellingOf (finite : number.isFinite = true) :
    (spellingOf number).decimal.nearestMagnitude = number.magnitude := by
  by_cases whole : Binary64.isWhole number.magnitude = true
  · exact nearestMagnitude_of_isWhole finite whole
  · exact nearestMagnitude_of_not_isWhole finite whole

/-- A literal denotes its double, and zero where the double is not finite. -/
theorem spells_floatLiteral (number : Binary64) : Spells (floatLiteral number) number where
  formed := by
    cases finite : number.isFinite with
    | true => exact ⟨spellingOf number, proper_spellingOf finite, (toList_floatLiteral finite).symm⟩
    | false =>
        refine ⟨⟨false, ['0'], ['0']⟩, ⟨Json.someDigits_zero, Json.someDigits_zero⟩, ?_⟩
        simp [floatLiteral, finite, Spelling.text]
  nearest finite spelling proper same double := by
    obtain rfl : spelling = spellingOf number :=
      Spelling.eq_of_text proper (proper_spellingOf finite)
        (same.trans (toList_floatLiteral finite))
    have nearest := Binary64.isNearest_of_reads finite (nearestMagnitude_spellingOf finite)
    rw [← negative_spellingOf number, ← Spelling.value_eq] at nearest
    constructor
    · rintro ⟨doubleNearest, sign⟩
      exact doubleNearest.unique nearest (sign.trans (negative_spellingOf number))
    · rintro rfl
      exact ⟨nearest, (negative_spellingOf double).symm⟩
  unspelled infinite := by
    rw [floatLiteral, infinite]
    rfl

end Shader

/-! ## Constants of several components -/

namespace SocketValue

/-- The component at a place: a scalar is the same everywhere, a vector goes on with zeros. -/
def componentAt (value : SocketValue) (place : Nat) : Binary64 :=
  match value with
  | .scalar component => component
  | .vector components => components.getD place .zero

/-- How many components are asked for: dimension zero asks for those that there are. -/
def extent (dimension : Nat) (value : SocketValue) : Nat :=
  if dimension = 0 then value.components.length else dimension

end SocketValue

namespace Shader

variable {dimension place : Nat} {value : SocketValue}

/-- A constant has as many components as its extent says. -/
theorem length_sized (dimension : Nat) (value : SocketValue) :
    (sized dimension value).length = value.extent dimension := by
  cases dimension with
  | zero => rfl
  | succ dimension =>
      cases value with
      | scalar component => simp [sized, SocketValue.extent]
      | vector components =>
          have filled : min (dimension + 1) components.length +
              (dimension + 1 - components.length) = dimension + 1 := by
            omega
          simp [sized, SocketValue.extent, filled]

/-- What is asked for is repeated, taken over, cut off or filled up with zeros. -/
theorem getElem?_sized (inside : place < value.extent dimension) :
    (sized dimension value)[place]? = some (value.componentAt place) := by
  cases dimension with
  | zero =>
      cases value with
      | scalar component =>
          obtain rfl : place = 0 := Nat.lt_one_iff.1 inside
          rfl
      | vector components =>
          have present : place < components.length := inside
          simp [sized, SocketValue.components, SocketValue.componentAt, present]
  | succ dimension =>
      have bound : place < dimension + 1 := inside
      cases value with
      | scalar component =>
          simp [sized, SocketValue.componentAt, bound]
      | vector components =>
          by_cases present : place < components.length
          · simp [sized, SocketValue.componentAt, List.getElem?_append, bound, present]
          · have filled : place - min (dimension + 1) components.length <
                dimension + 1 - components.length := by
              omega
            simp [sized, SocketValue.componentAt, List.getElem?_append, present, filled]

/-- The constructors of so many components. -/
inductive ConstructorOf : Nat → String → Prop
  | vector {count : Nat} (atLeast : 2 ≤ count) (atMost : count ≤ 4) :
      ConstructorOf count ("vec" ++ toString count)
  | matrix3 : ConstructorOf 9 "mat3"
  | matrix4 : ConstructorOf 16 "mat4"
  | array {count : Nat} (unnamed : count ∉ [2, 3, 4, 9, 16]) :
      ConstructorOf count ("float[" ++ toString count ++ "]")

/-- A constant of so many literals: the one literal itself, or a call of a constructor. -/
inductive Constant : List String → String → Prop
  | single (literal : String) : Constant [literal] literal
  | call {literals : List String} {constructor : String} (several : 2 ≤ literals.length)
      (named : ConstructorOf literals.length constructor) :
      Constant literals (constructor ++ "(" ++ String.intercalate ", " literals ++ ")")

/-- Vectors and matrices have constructors of their own, and any other count makes an array. -/
theorem constructorOf_constructorName (count : Nat) :
    ConstructorOf count (constructorName count) := by
  rw [constructorName.eq_def]
  split
  · exact .vector (by decide) (by decide)
  · exact .vector (by decide) (by decide)
  · exact .vector (by decide) (by decide)
  · exact .matrix3
  · exact .matrix4
  · refine .array ?_
    simp_all

theorem floatLiteral_zero : floatLiteral .zero = "0.0" := by
  decide +kernel

/-- A value without components is written as zero. -/
theorem literal_of_extent_eq_zero (none : value.extent dimension = 0) :
    literal dimension value = "0.0" := by
  have empty : sized dimension value = [] :=
    List.length_eq_zero_iff.1 ((length_sized dimension value).trans none)
  rw [literal, empty]

theorem componentAt_of_extent_eq_zero (none : value.extent dimension = 0) (place : Nat) :
    value.componentAt place = .zero := by
  have unsized : dimension = 0 := by
    by_contra asked
    rw [SocketValue.extent, if_neg asked] at none
    exact asked none
  subst unsized
  cases value with
  | scalar component => cases none
  | vector components =>
      have empty : components = [] := List.length_eq_zero_iff.1 none
      simp [SocketValue.componentAt, empty]

/-- A constant with components is written as these components. -/
theorem constant_literal (some : value.extent dimension ≠ 0) :
    Constant ((sized dimension value).map floatLiteral) (literal dimension value) := by
  have length := length_sized dimension value
  rw [literal]
  split
  next empty => exact absurd (length.symm.trans (congrArg List.length empty)) some
  next component alone =>
    rw [alone]
    exact .single _
  next empty alone =>
    rw [← List.length_map floatLiteral]
    refine .call ?_ (constructorOf_constructorName _)
    rw [List.length_map]
    generalize sized dimension value = components at *
    match components with
    | [] => exact absurd rfl empty
    | [component] => exact absurd rfl (alone component)
    | _ :: _ :: _ => simp

/--
The constant of a value consists of one literal for each component that it is
asked for, and each literal stands for its component.
-/
theorem literal_denotes (dimension : Nat) (value : SocketValue) :
    ∃ literals : List String,
      Constant literals (literal dimension value) ∧
      literals.length = max 1 (value.extent dimension) ∧
      (∀ place text, literals[place]? = some text → Spells text (value.componentAt place)) ∧
      (value.extent dimension = 0 → literals = ["0.0"]) := by
  by_cases none : value.extent dimension = 0
  · refine ⟨["0.0"], ?_, by simp [none], ?_, fun _ => rfl⟩
    · rw [literal_of_extent_eq_zero none]
      exact .single _
    · intro place text found
      obtain ⟨-, rfl⟩ : place = 0 ∧ "0.0" = text := by
        cases place <;> simp_all
      rw [componentAt_of_extent_eq_zero none, ← floatLiteral_zero]
      exact spells_floatLiteral _
  · refine ⟨(sized dimension value).map floatLiteral, constant_literal none, ?_, ?_, none.elim⟩
    · rw [List.length_map, length_sized]
      omega
    · intro place text found
      obtain ⟨component, listed, rfl⟩ : ∃ component,
          (sized dimension value)[place]? = some component ∧ floatLiteral component = text := by
        simpa using found
      have inside : place < value.extent dimension :=
        length_sized dimension value ▸ (List.getElem?_eq_some_iff.1 listed).1
      obtain rfl := Option.some.inj (listed.symm.trans (getElem?_sized inside))
      exact spells_floatLiteral _

example : literal 3 (.vector [.one]) = "vec3(1.0, 0.0, 0.0)" := by
  decide +kernel

end Shader

end NodeMaterial
