import Mathlib.Algebra.Order.Field.Basic
import Mathlib.Algebra.Order.Field.Rat
import Mathlib.Algebra.Order.Ring.Abs
import Mathlib.Tactic.FieldSimp
import Mathlib.Tactic.Linarith
import Mathlib.Tactic.Positivity
import NodeMaterial.Proofs.Numerals

/-!
# No double is nearer than the nearest one

What rounding computes with quotients and doublings is the double nearest to an
exact rational number: every other double is farther away, or as far away and
then the chosen one has an even last bit (`Binary64.IsNearest`).  There is only
one such double of either sign, so a decimal that reads back names its double.

Distances are compared in units.  Rounding a quotient gives the best multiple of
the doubled unit, and a double that is not such a multiple lies below all
significands of full length, hence farther away than the least of these.
-/

namespace NodeMaterial

/-! ## Preference between two candidates -/

/-- The first candidate for an exact number is the nearer one, or as near and even. -/
def Preferred (exact : ℚ) (even : Prop) (first second : ℚ) : Prop :=
  |first - exact| < |second - exact| ∨ |first - exact| = |second - exact| ∧ even

namespace Preferred

variable {exact first second factor : ℚ} {even : Prop}

/-- Scaling keeps which of two numbers is preferred. -/
theorem mul_right (preferred : Preferred exact even first second) (positive : 0 < factor) :
    Preferred (exact * factor) even (first * factor) (second * factor) := by
  have stretched (number : ℚ) :
      |number * factor - exact * factor| = |number - exact| * factor := by
    rw [← sub_mul, abs_mul, abs_of_pos positive]
  rw [Preferred, stretched, stretched]
  rcases preferred with nearer | ⟨tie, chosen⟩
  · exact .inl (mul_lt_mul_of_pos_right nearer positive)
  · exact .inr ⟨by rw [tie], chosen⟩

theorem neg (preferred : Preferred exact even first second) :
    Preferred (-exact) even (-first) (-second) := by
  simpa only [Preferred, neg_sub_neg, abs_sub_comm exact] using preferred

protected theorem le (preferred : Preferred exact even first second) :
    |first - exact| ≤ |second - exact| :=
  preferred.elim le_of_lt fun tie => tie.1.le

theorem even_of_tie (preferred : Preferred exact even first second)
    (tie : |first - exact| = |second - exact|) : even :=
  preferred.elim (fun nearer => absurd tie nearer.ne) And.right

/-- A candidate that is no nearer than the second loses against the first as well. -/
theorem of_le {third : ℚ} (preferred : Preferred exact even first second)
    (farther : |second - exact| ≤ |third - exact|) : Preferred exact even first third := by
  rcases preferred with nearer | ⟨tie, chosen⟩
  · exact .inl (nearer.trans_le farther)
  · rcases farther.lt_or_eq with strictly | same
    · exact .inl (tie ▸ strictly)
    · exact .inr ⟨tie.trans same, chosen⟩

end Preferred

namespace Binary64

/-! ## Rounding a quotient -/

/-- A rounded quotient is off by less than a half, or by a half and even. -/
theorem roundQuotient_off {denominator : Nat} (positive : 0 < denominator) (numerator : Nat) :
    |(roundQuotient numerator denominator : ℚ) - numerator / denominator| < 1 / 2 ∨
      |(roundQuotient numerator denominator : ℚ) - numerator / denominator| = 1 / 2 ∧
        roundQuotient numerator denominator % 2 = 0 := by
  have positiveRat : (0 : ℚ) < denominator := by exact_mod_cast positive
  set floor := numerator / denominator with floorEq
  set rest := numerator % denominator with restEq
  have quotient : (numerator : ℚ) / denominator = floor + (rest : ℚ) / denominator := by
    have parts : (numerator : ℚ) = denominator * floor + rest := by
      exact_mod_cast (Nat.div_add_mod numerator denominator).symm
    rw [parts]
    field_simp
  have nonneg : (0 : ℚ) ≤ (rest : ℚ) / denominator := by positivity
  rw [roundQuotient, ← floorEq, ← restEq, quotient]
  rcases lt_trichotomy (2 * rest) denominator with below | half | above
  · have small : (rest : ℚ) / denominator < 1 / 2 := by
      rw [div_lt_div_iff₀ positiveRat two_pos]
      exact_mod_cast (by omega : rest * 2 < 1 * denominator)
    left
    rw [if_pos below, abs_lt]
    constructor <;> linarith
  · have exactly : (rest : ℚ) / denominator = 1 / 2 := by
      rw [div_eq_div_iff positiveRat.ne' two_ne_zero]
      exact_mod_cast (by omega : rest * 2 = 1 * denominator)
    right
    rw [if_neg (by omega), if_neg (by omega), exactly]
    refine ⟨?_, by omega⟩
    rcases Nat.mod_two_eq_zero_or_one floor with isEven | isOdd
    · rw [isEven]
      norm_num [abs_of_neg]
    · rw [isOdd]
      push_cast
      rw [abs_of_pos] <;> linarith
  · have large : 1 / 2 < (rest : ℚ) / denominator := by
      rw [div_lt_div_iff₀ two_pos positiveRat]
      exact_mod_cast (by omega : 1 * denominator < rest * 2)
    have belowOne : (rest : ℚ) / denominator < 1 := by
      rw [div_lt_one positiveRat]
      exact_mod_cast Nat.mod_lt numerator positive
    left
    rw [if_neg (by omega), if_pos above, abs_lt]
    push_cast
    constructor <;> linarith

/-- No other natural number is as good as the rounded quotient. -/
theorem preferred_roundQuotient {numerator denominator other : Nat} (positive : 0 < denominator)
    (different : other ≠ roundQuotient numerator denominator) :
    Preferred (numerator / denominator) (roundQuotient numerator denominator % 2 = 0)
      (roundQuotient numerator denominator) other := by
  set rounded := roundQuotient numerator denominator
  set quotient : ℚ := numerator / denominator
  have apart : (1 : ℚ) ≤ |(other : ℚ) - rounded| := by
    have whole : (1 : ℤ) ≤ |(other : ℤ) - rounded| := Int.one_le_abs (by omega)
    exact_mod_cast whole
  have detour : |(other : ℚ) - rounded| ≤ |other - quotient| + |rounded - quotient| := by
    rw [abs_sub_comm (rounded : ℚ) quotient]
    exact abs_sub_le _ _ _
  rcases roundQuotient_off positive numerator with near | ⟨half, isEven⟩
  · exact .inl (by linarith)
  · rcases (show |(rounded : ℚ) - quotient| ≤ |other - quotient| by linarith).lt_or_eq with
      nearer | tie
    · exact .inl nearer
    · exact .inr ⟨tie, isEven⟩

/-! ## Units of neighbouring magnitudes -/

/--
A significand of full length, or any significand without doublings, counts the
doubled units; one that has become too long by one counts them as well.
-/
theorem units_add {doublings rounded : Nat} (fits : rounded ≤ 2 * binade)
    (full : doublings = 0 ∨ binade ≤ rounded) :
    units (doublings * binade + rounded) = rounded * 2 ^ doublings := by
  rcases fits.lt_or_eq with below | rfl
  · have scaled : scale (doublings * binade + rounded) = doublings := by
      simp only [scale, binade] at *
      omega
    have digits : significand (doublings * binade + rounded) = rounded := by
      simp only [significand, scaled]
      omega
    rw [units, scaled, digits, Nat.pow_eq]
  · have scaled : scale (doublings * binade + 2 * binade) = doublings + 1 := by
      simp only [scale, binade]
      omega
    have digits : significand (doublings * binade + 2 * binade) = binade := by
      simp only [significand, scaled, Nat.add_mul]
      omega
    rw [units, scaled, digits, Nat.pow_eq, pow_succ]
    ring

@[simp]
theorem units_zero : units 0 = 0 := by
  rw [units, significand, Nat.zero_sub, Nat.zero_mul]

theorem units_succ (magnitude : Nat) :
    units (magnitude + 1) = (significand magnitude + 1) * 2 ^ scale magnitude := by
  have full : scale magnitude = 0 ∨ binade ≤ significand magnitude + 1 := by
    rcases Nat.eq_zero_or_pos (scale magnitude) with unscaled | scaled
    · exact .inl unscaled
    · exact .inr (Nat.le_succ_of_le (binade_le_significand scaled))
  have fits : significand magnitude + 1 ≤ 2 * binade := significand_lt magnitude
  rw [← units_add fits full, ← Nat.add_assoc, scale_mul_add_significand]

theorem strictMono_units : StrictMono units := by
  apply strictMono_nat_of_lt_succ
  intro magnitude
  rw [units_succ]
  exact Nat.mul_lt_mul_of_pos_right (Nat.lt_succ_self _) (Nat.two_pow_pos _)

/-- Units that are not counted by the doubled unit lie below every full significand. -/
theorem units_on_grid (magnitude doublings : Nat) :
    (∃ count, units magnitude = count * 2 ^ doublings) ∨
      0 < doublings ∧ units magnitude < binade * 2 ^ doublings := by
  rcases Nat.lt_or_ge (scale magnitude) doublings with finer | coarser
  · refine .inr ⟨by omega, ?_⟩
    calc units magnitude
        < 2 * binade * 2 ^ scale magnitude :=
          Nat.mul_lt_mul_of_pos_right (significand_lt magnitude) (Nat.two_pow_pos _)
      _ = binade * 2 ^ (scale magnitude + 1) := by ring
      _ ≤ binade * 2 ^ doublings := Nat.mul_le_mul_left _ (Nat.pow_le_pow_right (by decide) finer)
  · refine .inl ⟨significand magnitude * 2 ^ (scale magnitude - doublings), ?_⟩
    rw [Nat.mul_assoc, ← pow_add, Nat.sub_add_cancel coarser]
    rfl

/-! ## The nearest magnitude -/

theorem div_le_roundQuotient (numerator denominator : Nat) :
    numerator / denominator ≤ roundQuotient numerator denominator := by
  simp only [roundQuotient]
  split_ifs <;> omega

theorem roundQuotient_le_div (numerator denominator : Nat) :
    roundQuotient numerator denominator ≤ numerator / denominator + 1 := by
  simp only [roundQuotient]
  split_ifs <;> omega

/-- With its doublings taken off, a number has at most fifty-three bits. -/
theorem div_two_pow_log2_lt (number : Nat) :
    number / 2 ^ (Nat.log2 number - 52) < 2 * binade := by
  apply Nat.div_lt_of_lt_mul
  calc number
      < 2 ^ (Nat.log2 number + 1) := Nat.lt_log2_self
    _ ≤ 2 ^ (Nat.log2 number - 52 + 53) := Nat.pow_le_pow_right (by decide) (by omega)
    _ = 2 ^ (Nat.log2 number - 52) * (2 * binade) := by rw [binade_eq, ← pow_succ', pow_add]

/-- A number that is doubled at all has fifty-three bits without its doublings. -/
theorem binade_mul_le {number : Nat} (doubled : 0 < Nat.log2 number - 52) :
    binade * 2 ^ (Nat.log2 number - 52) ≤ number := by
  have nonzero : number ≠ 0 := by
    rintro rfl
    simp at doubled
  calc binade * 2 ^ (Nat.log2 number - 52)
      = 2 ^ Nat.log2 number := by
        rw [binade_eq, ← pow_add]
        congr 1
        omega
    _ ≤ number := Nat.log2_self_le nonzero

/--
What rounding works with: the doublings of the unit, and the significand that
the number of units has when it is counted by the doubled unit.
-/
structure Rounds (scaled denominator doublings rounded : Nat) : Prop where
  counted : rounded = roundQuotient scaled (denominator * 2 ^ doublings)
  fits : rounded ≤ 2 * binade
  least : 0 < doublings → binade * 2 ^ doublings ≤ scaled / denominator

/-- The nearest magnitude comes from one rounded quotient, after some doublings. -/
theorem exists_rounds (numerator denominator : Nat) :
    ∃ doublings rounded, Rounds (numerator * unitsPerOne) denominator doublings rounded ∧
      nearestMagnitude numerator denominator = doublings * binade + rounded := by
  set scaled := numerator * unitsPerOne
  refine ⟨Nat.log2 (scaled / denominator) - 52, _, ⟨rfl, ?_, binade_mul_le⟩, rfl⟩
  have above := roundQuotient_le_div scaled
    (denominator * 2 ^ (Nat.log2 (scaled / denominator) - 52))
  have below := div_two_pow_log2_lt (scaled / denominator)
  rw [Nat.div_div_eq_div_mul] at below
  omega

namespace Rounds

variable {scaled denominator doublings rounded : Nat}
  (rounds : Rounds scaled denominator doublings rounded)

include rounds

theorem full : doublings = 0 ∨ binade ≤ rounded := by
  refine (Nat.eq_zero_or_pos doublings).imp_right fun doubled => ?_
  calc binade
      ≤ scaled / denominator / 2 ^ doublings :=
        (Nat.le_div_iff_mul_le (Nat.two_pow_pos _)).2 (rounds.least doubled)
    _ = scaled / (denominator * 2 ^ doublings) := Nat.div_div_eq_div_mul ..
    _ ≤ rounded := rounds.counted ▸ div_le_roundQuotient ..

theorem units_eq : units (doublings * binade + rounded) = rounded * 2 ^ doublings :=
  units_add rounds.fits rounds.full

/-- Other multiples of the doubled unit are not as good. -/
theorem preferred_multiple (positive : 0 < denominator) {count : Nat}
    (different : count ≠ rounded) :
    Preferred (scaled / denominator) (rounded % 2 = 0) (rounded * 2 ^ doublings)
      (count * 2 ^ doublings) := by
  have ground : 0 < denominator * 2 ^ doublings := Nat.mul_pos positive (Nat.two_pow_pos _)
  have exact : (scaled : ℚ) / denominator =
      scaled / (denominator * 2 ^ doublings : Nat) * 2 ^ doublings := by
    have positiveRat : (0 : ℚ) < denominator := by exact_mod_cast positive
    push_cast
    field_simp
  rw [exact]
  rw [rounds.counted] at different ⊢
  exact (preferred_roundQuotient ground different).mul_right (by positivity)

/-- What lies below every full significand is farther away than the least of these. -/
theorem preferred_below (positive : 0 < denominator) (doubled : 0 < doublings) {other : Nat}
    (below : other < binade * 2 ^ doublings) :
    Preferred (scaled / denominator) (rounded % 2 = 0) (rounded * 2 ^ doublings) other := by
  have atMost : |(rounded * 2 ^ doublings : ℚ) - scaled / denominator| ≤
      |(binade * 2 ^ doublings : ℚ) - scaled / denominator| := by
    by_cases same : binade = rounded
    · rw [same]
    · exact (rounds.preferred_multiple positive same).le
  have least : (binade * 2 ^ doublings : ℚ) ≤ scaled / denominator := by
    rw [le_div_iff₀ (by exact_mod_cast positive)]
    exact_mod_cast (Nat.le_div_iff_mul_le positive).1 (rounds.least doubled)
  have less : (other : ℚ) < binade * 2 ^ doublings := by exact_mod_cast below
  left
  calc |(rounded * 2 ^ doublings : ℚ) - scaled / denominator|
      ≤ |(binade * 2 ^ doublings : ℚ) - scaled / denominator| := atMost
    _ = scaled / denominator - binade * 2 ^ doublings := by
        rw [abs_of_nonpos (by linarith), neg_sub]
    _ < scaled / denominator - other := by linarith
    _ = |(other : ℚ) - scaled / denominator| := by
        rw [abs_of_nonpos (by linarith), neg_sub]

end Rounds

/-- No other magnitude is as good as the nearest one, counted in units. -/
theorem preferred_nearestMagnitude {numerator denominator other : Nat}
    (positive : 0 < denominator) (different : other ≠ nearestMagnitude numerator denominator) :
    Preferred ((numerator * unitsPerOne : Nat) / denominator)
      (nearestMagnitude numerator denominator % 2 = 0)
      (units (nearestMagnitude numerator denominator)) (units other) := by
  obtain ⟨doublings, rounded, rounds, nearest⟩ := exists_rounds numerator denominator
  have parity : (doublings * binade + rounded) % 2 = rounded % 2 := by
    simp only [binade]
    omega
  rw [nearest] at different ⊢
  rw [parity, rounds.units_eq, Nat.cast_mul rounded, Nat.cast_pow, Nat.cast_two]
  rcases units_on_grid other doublings with ⟨count, onGrid⟩ | ⟨doubled, below⟩
  · have otherCount : count ≠ rounded := by
      rintro rfl
      exact different (strictMono_units.injective (onGrid.trans rounds.units_eq.symm))
    rw [onGrid, Nat.cast_mul count, Nat.cast_pow, Nat.cast_two]
    exact rounds.preferred_multiple positive otherCount
  · exact rounds.preferred_below positive doubled below

/-! ## The nearest double -/

/-- The number of a magnitude; that of an infinity is the power of two behind the last number. -/
def size (magnitude : Nat) : ℚ :=
  units magnitude / unitsPerOne

/-- A number with a sign. -/
def signed (negative : Bool) (number : ℚ) : ℚ :=
  if negative then -number else number

/-- The number that a double stands for. -/
def value (number : Binary64) : ℚ :=
  signed number.isNegative (size number.magnitude)

/--
A double to which an exact number is rounded: it is finite, and every double of
another value is farther away, or as far away and then the last bit of the chosen
one is zero.  An infinity counts as the power of two behind the last finite double.
-/
structure IsNearest (number : Binary64) (exact : ℚ) : Prop where
  finite : number.isFinite = true
  preferred : ∀ other : Binary64, other.magnitude ≤ infiniteMagnitude →
    other.value ≠ number.value →
      Preferred exact (number.magnitude % 2 = 0) number.value other.value

theorem unitsPerOne_pos_rat : (0 : ℚ) < unitsPerOne := by
  obtain ⟨power, given⟩ : ∃ power, power = 1074 := ⟨_, rfl⟩
  rw [unitsPerOne_eq given]
  positivity

/-- Magnitudes are ordered as the numbers they stand for. -/
theorem strictMono_size : StrictMono size := by
  intro first second less
  have fewer : (units first : ℚ) < units second := by exact_mod_cast strictMono_units less
  exact div_lt_div_of_pos_right fewer unitsPerOne_pos_rat

@[simp]
theorem size_zero : size 0 = 0 := by
  rw [size, units_zero, Nat.cast_zero, zero_div]

theorem size_nonneg (magnitude : Nat) : 0 ≤ size magnitude :=
  size_zero ▸ strictMono_size.monotone (Nat.zero_le magnitude)

/-- No other magnitude is as good as the one that a decimal reads back as. -/
theorem preferred_of_reads {decimal : Decimal} {magnitude other : Nat}
    (finite : magnitude < infiniteMagnitude) (reads : decimal.nearestMagnitude = magnitude)
    (different : other ≠ magnitude) :
    Preferred (decimal.numerator / decimal.denominator) (magnitude % 2 = 0) (size magnitude)
      (size other) := by
  have nearest := (decimal.nearestMagnitude_eq_iff finite).1 reads
  subst nearest
  have inUnits := preferred_nearestMagnitude decimal.denominator_pos different
  have scaled : (decimal.numerator : ℚ) / decimal.denominator =
      (decimal.numerator * unitsPerOne : Nat) / decimal.denominator * (unitsPerOne : ℚ)⁻¹ := by
    have positive := unitsPerOne_pos_rat
    have denominatorPos : (0 : ℚ) < decimal.denominator := by
      exact_mod_cast decimal.denominator_pos
    push_cast
    field_simp
  rw [scaled]
  exact inUnits.mul_right (inv_pos.2 unitsPerOne_pos_rat)

/-- The other sign is no better than zero. -/
theorem preferred_opposite {exact : ℚ} {even : Prop} {magnitude : Nat} (positive : 0 ≤ exact)
    (best : ∀ other ≠ magnitude, Preferred exact even (size magnitude) (size other))
    {other : Nat} (different : -size other ≠ size magnitude) :
    Preferred exact even (size magnitude) (-size other) := by
  have opposite : |-size other - exact| = size other + exact := by
    rw [abs_of_nonpos (by linarith [size_nonneg other])]
    ring
  have ground : |0 - exact| = exact := by
    rw [zero_sub, abs_neg, abs_of_nonneg positive]
  rcases Nat.eq_zero_or_pos magnitude with rfl | nonzero
  · rw [size_zero] at different ⊢
    have strictly : 0 < size other :=
      (size_nonneg other).lt_of_ne fun zero => different (by rw [← zero, neg_zero])
    left
    rw [opposite, ground]
    linarith
  · have overZero := best 0 nonzero.ne
    rw [size_zero] at overZero
    apply overZero.of_le
    rw [opposite, ground]
    linarith [size_nonneg other]

theorem signed_not (negative : Bool) (number : ℚ) :
    signed (!negative) number = signed negative (-number) := by
  cases negative <;> simp [signed]

theorem signed_injective (negative : Bool) : Function.Injective (signed negative) := by
  cases negative
  · exact fun _ _ same => same
  · exact fun _ _ same => neg_injective same

/-- A sign keeps which of two numbers is preferred. -/
theorem preferred_signed {exact first second : ℚ} {even : Prop} (negative : Bool)
    (preferred : Preferred exact even first second) :
    Preferred (signed negative exact) even (signed negative first) (signed negative second) := by
  cases negative with
  | false => exact preferred
  | true => exact preferred.neg

/-- A double is nearest to every decimal of its sign that reads back as its magnitude. -/
theorem isNearest_of_reads {number : Binary64} (finite : number.isFinite = true)
    {decimal : Decimal} (reads : decimal.nearestMagnitude = number.magnitude) :
    number.IsNearest (signed number.isNegative (decimal.numerator / decimal.denominator)) := by
  have best : ∀ other ≠ number.magnitude,
      Preferred (decimal.numerator / decimal.denominator) (number.magnitude % 2 = 0)
        (size number.magnitude) (size other) := fun _ different =>
    preferred_of_reads (lt_infiniteMagnitude finite) reads different
  refine ⟨finite, fun other _ different => ?_⟩
  by_cases sameSign : other.isNegative = number.isNegative
  · have aligned : other.value = signed number.isNegative (size other.magnitude) := by
      rw [value, sameSign]
    rw [aligned] at different ⊢
    refine preferred_signed _ (best _ fun same => different ?_)
    rw [same, value]
  · have opposite : other.value = signed number.isNegative (-size other.magnitude) := by
      rw [← signed_not, ← Bool.eq_not.2 sameSign, value]
    rw [opposite] at different ⊢
    refine preferred_signed _ (preferred_opposite (by positivity) best fun same => different ?_)
    rw [same, value]

/-! ## There is only one nearest double of a sign -/

theorem toNat_ofMagnitude (negative : Bool) {magnitude : Nat} (small : magnitude < signWeight) :
    (ofMagnitude negative magnitude).bits.toNat =
      if negative then signWeight + magnitude else magnitude := by
  rw [ofMagnitude, UInt64.toNat_ofNat_of_lt']
  simp only [signWeight, UInt64.size] at *
  split <;> omega

theorem magnitude_ofMagnitude (negative : Bool) {magnitude : Nat} (small : magnitude < signWeight) :
    (ofMagnitude negative magnitude).magnitude = magnitude := by
  rw [Binary64.magnitude, toNat_ofMagnitude negative small]
  split
  · rw [Nat.add_mod_left, Nat.mod_eq_of_lt small]
  · exact Nat.mod_eq_of_lt small

theorem isNegative_ofMagnitude (negative : Bool) {magnitude : Nat}
    (small : magnitude < signWeight) : (ofMagnitude negative magnitude).isNegative = negative := by
  rw [isNegative, toNat_ofMagnitude negative small]
  cases negative <;> simp [small]

theorem value_ofMagnitude (negative : Bool) {magnitude : Nat} (small : magnitude < signWeight) :
    (ofMagnitude negative magnitude).value = signed negative (size magnitude) := by
  rw [value, magnitude_ofMagnitude negative small, isNegative_ofMagnitude negative small]

theorem eq_of_sign_of_magnitude {first second : Binary64}
    (sign : first.isNegative = second.isNegative) (same : first.magnitude = second.magnitude) :
    first = second := by
  rw [← ofMagnitude_magnitude first, sign, same, ofMagnitude_magnitude]

/-- The middle of two numbers is nearer to what lies between them than to either of them. -/
theorem abs_sub_lt_of_between {low middle high exact : ℚ} (above : low < middle)
    (below : middle < high) (centre : low + high = 2 * exact) :
    |middle - exact| < |low - exact| := by
  rw [abs_of_nonpos (by linarith : low - exact ≤ 0), abs_lt]
  constructor <;> linarith

theorem abs_signed_sub (negative : Bool) (number exact : ℚ) :
    |signed negative number - exact| = |number - signed negative exact| := by
  cases negative with
  | false => rfl
  | true => simp only [signed, if_true, sub_neg_eq_add, ← neg_add', abs_neg]

/-- Of two doubles of the same sign that are both nearest, neither is larger. -/
theorem IsNearest.magnitude_le {first second : Binary64} {exact : ℚ}
    (firstNearest : first.IsNearest exact) (secondNearest : second.IsNearest exact)
    (sign : first.isNegative = second.isNegative) : second.magnitude ≤ first.magnitude := by
  by_contra! less
  have finite : second.magnitude < infiniteMagnitude := lt_infiniteMagnitude secondNearest.finite
  have room : infiniteMagnitude < signWeight := by decide
  have apart : second.value ≠ first.value := by
    rw [value, value, sign]
    exact fun same => (strictMono_size less).ne' (signed_injective _ same)
  have forth := firstNearest.preferred second finite.le apart
  have back := secondNearest.preferred first (less.trans finite).le apart.symm
  have tie : |first.value - exact| = |second.value - exact| := le_antisymm forth.le back.le
  have firstEven : first.magnitude % 2 = 0 := forth.even_of_tie tie
  have secondEven : second.magnitude % 2 = 0 := back.even_of_tie tie.symm
  -- Both are even, so there is a double between them, and it is nearer than both.
  have small : first.magnitude + 1 < signWeight := by omega
  have above := strictMono_size (Nat.lt_succ_self first.magnitude)
  have below := strictMono_size (by omega : first.magnitude + 1 < second.magnitude)
  have between := value_ofMagnitude first.isNegative small
  have nearest : |first.value - exact| ≤
      |(ofMagnitude first.isNegative (first.magnitude + 1)).value - exact| := by
    refine (firstNearest.preferred _ ?_ ?_).le
    · rw [magnitude_ofMagnitude _ small]
      omega
    · rw [between, value]
      exact fun same => above.ne' (signed_injective _ same)
  rw [between, value, abs_signed_sub, abs_signed_sub] at nearest
  rw [value, value, ← sign, abs_signed_sub, abs_signed_sub] at tie
  have centre : size first.magnitude + size second.magnitude =
      2 * signed first.isNegative exact := by
    rcases abs_eq_abs.1 tie with same | opposite <;> linarith
  exact (abs_sub_lt_of_between above below centre).not_ge nearest

/-- A number has one nearest double at most of either sign. -/
theorem IsNearest.unique {first second : Binary64} {exact : ℚ}
    (firstNearest : first.IsNearest exact) (secondNearest : second.IsNearest exact)
    (sign : first.isNegative = second.isNegative) : first = second := by
  apply eq_of_sign_of_magnitude sign
  exact le_antisymm (secondNearest.magnitude_le firstNearest sign.symm)
    (firstNearest.magnitude_le secondNearest sign)

end Binary64

end NodeMaterial
