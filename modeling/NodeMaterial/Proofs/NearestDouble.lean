import Mathlib.Data.Nat.Log
import Mathlib.Tactic.Ring
import NodeMaterial.Number.Shortest

/-!
# The nearest double of a decimal

Rounding looks at the value of a decimal only, not at the power of ten by which
it is given: `Decimal.reads_iff_of_sameValue` moves a reading from one decimal to
every decimal of the same value.  A double is the nearest one to its own exact
expansion, so the search for the shortest decimal always ends with one that reads
back (`Decimal.nearestMagnitude_shortest`).
-/

namespace NodeMaterial

namespace Binary64

theorem binade_eq : binade = 2 ^ 52 := by
  decide

-- The exponent is a variable so that no step evaluates the power.
theorem unitsPerOne_eq {power : Nat} (given : power = 1074) : unitsPerOne = 2 ^ power := by
  delta unitsPerOne
  rw [← given, Nat.pow_eq]

/-! ## Rounding a quotient -/

/-- A quotient is rounded alike however its fraction is written. -/
theorem roundQuotient_mul_right {factor : Nat} (positive : 0 < factor)
    (numerator denominator : Nat) :
    roundQuotient (numerator * factor) (denominator * factor) =
      roundQuotient numerator denominator := by
  have floor : numerator * factor / (denominator * factor) = numerator / denominator :=
    Nat.mul_div_mul_right numerator denominator positive
  have twice : 2 * (numerator * factor % (denominator * factor)) =
      2 * (numerator % denominator) * factor := by
    rw [Nat.mul_mod_mul_right, Nat.mul_assoc]
  simp only [roundQuotient, floor, twice, Nat.mul_lt_mul_right positive]

@[simp]
theorem roundQuotient_mul_self {denominator : Nat} (positive : 0 < denominator) (quotient : Nat) :
    roundQuotient (quotient * denominator) denominator = quotient := by
  simp [roundQuotient, positive]

theorem roundQuotient_of_lt {numerator denominator : Nat} (small : 2 * numerator < denominator) :
    roundQuotient numerator denominator = 0 := by
  have below : numerator < denominator := by omega
  simp [roundQuotient, Nat.mod_eq_of_lt below, Nat.div_eq_of_lt below, small]

/-! ## The magnitude nearest to a fraction -/

/-- The nearest magnitude does not depend on how a fraction is written. -/
theorem nearestMagnitude_mul_right {factor : Nat} (positive : 0 < factor)
    (numerator denominator : Nat) :
    nearestMagnitude (numerator * factor) (denominator * factor) =
      nearestMagnitude numerator denominator := by
  have scaled : numerator * factor * unitsPerOne = numerator * unitsPerOne * factor :=
    Nat.mul_right_comm ..
  have ground (power : Nat) : denominator * factor * power = denominator * power * factor :=
    Nat.mul_right_comm ..
  simp only [nearestMagnitude, scaled, ground, Nat.mul_div_mul_right _ _ positive,
    roundQuotient_mul_right positive]

/-- Equal fractions have the same nearest magnitude. -/
theorem nearestMagnitude_of_cross {first second bottom ground : Nat}
    (bottomPos : 0 < bottom) (groundPos : 0 < ground)
    (cross : first * ground = second * bottom) :
    nearestMagnitude first bottom = nearestMagnitude second ground := by
  calc nearestMagnitude first bottom
      = nearestMagnitude (first * ground) (bottom * ground) :=
        (nearestMagnitude_mul_right groundPos ..).symm
    _ = nearestMagnitude (second * bottom) (ground * bottom) := by
        rw [cross, Nat.mul_comm bottom]
    _ = nearestMagnitude second ground :=
        nearestMagnitude_mul_right bottomPos ..

/-- A whole number of units, up to the doubling that its fifty-three bits ask for. -/
theorem nearestMagnitude_of_units {numerator denominator whole : Nat}
    (positive : 0 < denominator) (exactly : numerator * unitsPerOne = whole * denominator) :
    nearestMagnitude numerator denominator =
      (Nat.log2 whole - 52) * binade + roundQuotient whole (Nat.pow 2 (Nat.log2 whole - 52)) := by
  have quotient : whole * denominator / denominator = whole :=
    Nat.mul_div_cancel whole positive
  simp only [nearestMagnitude, exactly, quotient]
  rw [Nat.mul_comm denominator, roundQuotient_mul_right positive]

theorem binade_le_significand {magnitude : Nat} (scaled : 0 < scale magnitude) :
    binade ≤ significand magnitude := by
  have parts := Nat.div_add_mod magnitude binade
  simp only [scale, significand, binade] at *
  omega

theorem significand_lt (magnitude : Nat) : significand magnitude < 2 * binade := by
  simp only [scale, significand, binade]
  omega

theorem scale_mul_add_significand (magnitude : Nat) :
    scale magnitude * binade + significand magnitude = magnitude := by
  simp only [scale, significand, binade]
  omega

/-- The doublings of a magnitude are seen in the number of its units. -/
theorem log2_units (magnitude : Nat) : Nat.log2 (units magnitude) - 52 = scale magnitude := by
  have below : significand magnitude < 2 ^ 53 := by
    simpa only [binade_eq, ← pow_succ'] using significand_lt magnitude
  rcases Nat.eq_zero_or_pos (scale magnitude) with unscaled | scaled
  · have whole : units magnitude = significand magnitude := by
      simp [units, unscaled]
    rcases Nat.eq_zero_or_pos (significand magnitude) with zero | positive
    · simp [whole, zero, unscaled]
    · have bits : Nat.log2 (significand magnitude) < 53 := (Nat.log2_lt positive.ne').2 below
      rw [whole, unscaled]
      omega
  · have above : 2 ^ 52 ≤ significand magnitude := binade_eq ▸ binade_le_significand scaled
    have lower : 2 ^ (52 + scale magnitude) ≤ units magnitude := by
      rw [pow_add]
      exact Nat.mul_le_mul_right _ above
    have upper : units magnitude < 2 ^ (52 + scale magnitude + 1) := by
      rw [show 52 + scale magnitude + 1 = 53 + scale magnitude by omega, pow_add]
      exact Nat.mul_lt_mul_of_pos_right below (Nat.two_pow_pos _)
    have positive : units magnitude ≠ 0 :=
      Nat.ne_zero_of_lt (lt_of_lt_of_le (Nat.two_pow_pos _) lower)
    have bits := (Nat.log2_eq_iff positive).2 ⟨lower, upper⟩
    omega

/-- The number of a magnitude is nearest to itself. -/
theorem nearestMagnitude_units {numerator denominator magnitude : Nat}
    (positive : 0 < denominator)
    (exactly : numerator * unitsPerOne = units magnitude * denominator) :
    nearestMagnitude numerator denominator = magnitude := by
  rw [nearestMagnitude_of_units positive exactly, log2_units]
  have rounded : roundQuotient (units magnitude) (Nat.pow 2 (scale magnitude)) =
      significand magnitude :=
    roundQuotient_mul_self (Nat.two_pow_pos _) _
  rw [rounded, scale_mul_add_significand]

/-- Numbers from `2 ^ 1025` on have no nearest double. -/
theorem infiniteMagnitude_le_nearestMagnitude {number bits : Nat} (many : 1025 ≤ bits)
    (large : 2 ^ bits ≤ number) : infiniteMagnitude ≤ nearestMagnitude number 1 := by
  obtain ⟨power, given⟩ : ∃ power, power = 1074 := ⟨_, rfl⟩
  have units : 2 ^ (bits + power) ≤ number * unitsPerOne := by
    rw [unitsPerOne_eq given, pow_add]
    exact Nat.mul_le_mul_right _ large
  have positive : number * unitsPerOne ≠ 0 :=
    Nat.ne_zero_of_lt (lt_of_lt_of_le (Nat.two_pow_pos _) units)
  have doubled : bits + power ≤ Nat.log2 (number * unitsPerOne) := (Nat.le_log2 positive).2 units
  simp only [nearestMagnitude, Nat.div_one]
  calc infiniteMagnitude
      = 2047 * binade := rfl
    _ ≤ (Nat.log2 (number * unitsPerOne) - 52) * binade :=
        Nat.mul_le_mul_right _ (by omega)
    _ ≤ _ := Nat.le_add_right ..

/-- A fraction below half a unit is nearest to zero. -/
theorem nearestMagnitude_of_small {numerator denominator : Nat}
    (small : 2 * (numerator * unitsPerOne) < denominator) :
    nearestMagnitude numerator denominator = 0 := by
  have quotient : numerator * unitsPerOne / denominator = 0 := Nat.div_eq_of_lt (by omega)
  simp [nearestMagnitude, quotient, roundQuotient_of_lt small]

end Binary64

namespace Decimal

/-- Two decimals with the same value. -/
def SameValue (first second : Decimal) : Prop :=
  first.numerator * second.denominator = second.numerator * first.denominator

theorem denominator_pos (decimal : Decimal) : 0 < decimal.denominator :=
  Nat.pow_pos (by decide)

/-- Zeros at the end of the digits may go into the exponent. -/
theorem sameValue_shift (digits places : Nat) (exponent : Int) :
    SameValue ⟨digits * 10 ^ places, exponent⟩ ⟨digits, exponent + places⟩ := by
  have powers : places + exponent.toNat + (-(exponent + places)).toNat =
      (exponent + places).toNat + (-exponent).toNat := by
    omega
  calc digits * 10 ^ places * 10 ^ exponent.toNat * 10 ^ (-(exponent + places)).toNat
      = digits * 10 ^ (places + exponent.toNat + (-(exponent + places)).toNat) := by
        rw [pow_add, pow_add]
        ring
    _ = digits * 10 ^ (exponent + places).toNat * 10 ^ (-exponent).toNat := by
        rw [powers, pow_add]
        ring

theorem SameValue.symm {first second : Decimal} (same : SameValue first second) :
    SameValue second first :=
  Eq.symm same

theorem two_pow_mul_three_le (power : Nat) : 2 ^ (3 * power) ≤ 10 ^ power := by
  rw [pow_mul]
  exact Nat.pow_le_pow_left (by decide) power

/-- A decimal with a large exponent has no nearest double by the fraction either. -/
theorem infiniteMagnitude_le_of_exponent {decimal : Decimal} (digits : decimal.digits ≠ 0)
    (large : 400 < decimal.exponent) :
    Binary64.infiniteMagnitude ≤
      Binary64.nearestMagnitude decimal.numerator decimal.denominator := by
  have whole : decimal.denominator = 1 := by
    rw [denominator, show (-decimal.exponent).toNat = 0 by omega, Nat.pow_eq, pow_zero]
  rw [whole]
  have many : 1025 ≤ 3 * decimal.exponent.toNat := by omega
  apply Binary64.infiniteMagnitude_le_nearestMagnitude many
  calc 2 ^ (3 * decimal.exponent.toNat)
      ≤ 10 ^ decimal.exponent.toNat := two_pow_mul_three_le _
    _ ≤ decimal.numerator := Nat.le_mul_of_pos_left _ (Nat.pos_of_ne_zero digits)

/-- A decimal with an exponent far below its digits is nearest to zero by the fraction too. -/
theorem nearestMagnitude_of_exponent {decimal : Decimal}
    (small : decimal.exponent + Nat.log2 decimal.digits + 1100 < 0) :
    Binary64.nearestMagnitude decimal.numerator decimal.denominator = 0 := by
  apply Binary64.nearestMagnitude_of_small
  have whole : decimal.numerator = decimal.digits := by
    rw [numerator, show decimal.exponent.toNat = 0 by omega]
    exact Nat.mul_one _
  obtain ⟨power, given⟩ : ∃ power, power = 1074 := ⟨_, rfl⟩
  have bits : decimal.digits < 2 ^ (Nat.log2 decimal.digits + 1) := Nat.lt_log2_self
  calc 2 * (decimal.numerator * Binary64.unitsPerOne)
      < 2 * (2 ^ (Nat.log2 decimal.digits + 1) * 2 ^ power) := by
        rw [whole, Binary64.unitsPerOne_eq given]
        exact Nat.mul_lt_mul_of_pos_left
          (Nat.mul_lt_mul_of_pos_right bits (Nat.two_pow_pos _)) (by decide)
    _ = 2 ^ (Nat.log2 decimal.digits + 1 + power + 1) := by
        rw [← pow_add, ← pow_succ']
    _ ≤ 2 ^ (3 * (-decimal.exponent).toNat) := Nat.pow_le_pow_right (by decide) (by omega)
    _ ≤ decimal.denominator := two_pow_mul_three_le _

/-- For a finite magnitude the shortcuts decide as the fraction does. -/
theorem nearestMagnitude_eq_iff {magnitude : Nat}
    (finite : magnitude < Binary64.infiniteMagnitude) (decimal : Decimal) :
    decimal.nearestMagnitude = magnitude ↔
      Binary64.nearestMagnitude decimal.numerator decimal.denominator = magnitude := by
  rw [nearestMagnitude]
  split
  case isTrue digits =>
    have zero : Binary64.nearestMagnitude decimal.numerator decimal.denominator = 0 := by
      apply Binary64.nearestMagnitude_of_small
      simpa [numerator, digits] using decimal.denominator_pos
    rw [zero]
  case isFalse digits =>
    split
    case isTrue large =>
      have beyond := infiniteMagnitude_le_of_exponent digits large
      constructor <;> intro same <;> omega
    case isFalse =>
      split
      case isTrue small => rw [nearestMagnitude_of_exponent small]
      case isFalse => rfl

/-- Decimals of the same value have the same nearest double. -/
theorem reads_iff_of_sameValue {first second : Decimal} (same : SameValue first second)
    {magnitude : Nat} (finite : magnitude < Binary64.infiniteMagnitude) :
    first.nearestMagnitude = magnitude ↔ second.nearestMagnitude = magnitude := by
  rw [nearestMagnitude_eq_iff finite, nearestMagnitude_eq_iff finite,
    Binary64.nearestMagnitude_of_cross first.denominator_pos second.denominator_pos same]

/-- A finite double is the nearest to its own exact value. -/
theorem nearestMagnitude_exact {magnitude : Nat}
    (finite : magnitude < Binary64.infiniteMagnitude) :
    (exact magnitude).nearestMagnitude = magnitude := by
  rw [nearestMagnitude_eq_iff finite]
  apply Binary64.nearestMagnitude_units (denominator_pos _)
  obtain ⟨power, given⟩ : ∃ power, power = 1074 := ⟨_, rfl⟩
  have top : (exact magnitude).numerator = Binary64.units magnitude * 5 ^ power := by
    rw [numerator, exact, ← given]
    exact Nat.mul_one _
  have bottom : (exact magnitude).denominator = 10 ^ power :=
    congrArg (Nat.pow 10) given.symm
  rw [top, bottom, Binary64.unitsPerOne_eq given, Nat.mul_assoc, ← Nat.mul_pow]

/-- The search gives a decimal whose nearest double is the given one. -/
theorem nearestMagnitude_shortest (tie : TieRule) {magnitude : Nat}
    (finite : magnitude < Binary64.infiniteMagnitude) :
    (shortest tie magnitude).nearestMagnitude = magnitude := by
  rw [shortest]
  generalize searched : List.findSome? _ _ = found
  cases found with
  | none => exact nearestMagnitude_exact finite
  | some decimal =>
      obtain ⟨digits, -, tried⟩ := List.exists_of_findSome?_eq_some searched
      have back : readsBack magnitude decimal = true := List.find?_some tried
      simpa [readsBack] using back

/-- Only zero is written without a significant digit. -/
theorem digits_shortest_pos (tie : TieRule) {magnitude : Nat}
    (finite : magnitude < Binary64.infiniteMagnitude) (nonzero : magnitude ≠ 0) :
    0 < (shortest tie magnitude).digits := by
  have reads := nearestMagnitude_shortest tie finite
  apply Nat.pos_of_ne_zero
  intro zero
  rw [nearestMagnitude, if_pos zero] at reads
  exact nonzero reads.symm

end Decimal

end NodeMaterial
