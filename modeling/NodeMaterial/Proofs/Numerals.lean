import Mathlib.Data.List.DropRight
import NodeMaterial.Proofs.NearestDouble
import NodeMaterial.Proofs.NumeralTokens

/-!
# Written numbers are scanned back

A numeral is a whole part, a fraction and an exponent, and the scanner takes it
apart again wherever something stands behind it that cannot continue a numeral
(`NumeralParts.unsignedNumeral_text`).  Both forms on paper spell parts of the
same value as the figures they are made of.  So the numeral of a finite double is
scanned as a numeral whose nearest double is the double itself, sign and zeros
included.
-/

namespace NodeMaterial

namespace Json

/-! ## The value of digits -/

theorem digitsValue_eq (digits : List Char) :
    digitsValue digits = Nat.ofDigitChars 10 digits 0 := by
  simp only [digitsValue, Nat.ofDigitChars_eq_foldl, Nat.mul_comm]
  rfl

@[simp]
theorem digitsValue_toDigits (number : Nat) : digitsValue (Nat.toDigits 10 number) = number := by
  rw [digitsValue_eq, Nat.ofDigitChars_ten_toDigits]

theorem digitsValue_append (front back : List Char) :
    digitsValue (front ++ back) = digitsValue front * 10 ^ back.length + digitsValue back := by
  rw [digitsValue_eq, Nat.ofDigitChars_append, Nat.ofDigitChars_eq_ofDigitChars_zero,
    Nat.mul_comm, ← digitsValue_eq, ← digitsValue_eq]

@[simp]
theorem digitsValue_zeros (count : Nat) : digitsValue (List.replicate count '0') = 0 := by
  rw [digitsValue_eq, Nat.ofDigitChars_replicate_zero, Nat.mul_zero]

theorem digitsValue_zero : digitsValue ['0'] = 0 :=
  rfl

theorem isDigit_eq (character : Char) : isDigit character = character.isDigit := by
  simp [isDigit, Char.isDigit, Char.le_def]

theorem isDigit_of_mem_toDigits {number : Nat} {character : Char}
    (member : character ∈ Nat.toDigits 10 number) : isDigit character = true := by
  rw [isDigit_eq]
  exact Nat.isDigit_of_mem_toDigits (by decide) (by decide) member

theorem digitChar_ne_zero : ∀ number < 10, 0 < number → Nat.digitChar number ≠ '0' := by
  decide

/-- A positive number has no zero in front. -/
theorem head?_toDigits_ne_zero {number : Nat} (positive : 0 < number) :
    (Nat.toDigits 10 number).head? ≠ some '0' := by
  induction number using Nat.strong_induction_on with
  | _ number shorter =>
      by_cases single : number < 10
      · rw [Nat.toDigits_of_lt_base single]
        simpa using digitChar_ne_zero number single positive
      · rw [Nat.toDigits_of_base_le (by decide) (by omega),
          List.head?_append_of_ne_nil _ Nat.toDigits_ne_nil]
        exact shorter (number / 10) (by omega) (by omega)

/-! ## The parts of a numeral -/

theorem someDigits_toDigits (number : Nat) : SomeDigits (Nat.toDigits 10 number) where
  nonempty := Nat.toDigits_ne_nil
  all _ member := isDigit_of_mem_toDigits member

theorem someDigits_zero : SomeDigits ['0'] where
  nonempty := by simp
  all := by simp [isDigit]

theorem SomeDigits.notMem {digits : List Char} (proper : SomeDigits digits) {character : Char}
    (other : isDigit character = false) : character ∉ digits := by
  intro member
  rw [proper.all character member] at other
  cases other

theorem isDigit_of_mem_zeros {count : Nat} {character : Char}
    (member : character ∈ List.replicate count '0') : isDigit character = true := by
  obtain rfl := List.eq_of_mem_replicate member
  decide

theorem SomeDigits.append_zeros {digits : List Char} (proper : SomeDigits digits) (count : Nat) :
    SomeDigits (digits ++ List.replicate count '0') where
  nonempty := List.append_ne_nil_of_left_ne_nil proper.nonempty _
  all character member :=
    (List.mem_append.1 member).elim (proper.all character) isDigit_of_mem_zeros

theorem SomeDigits.zeros_append {digits : List Char} (proper : SomeDigits digits) (count : Nat) :
    SomeDigits (List.replicate count '0' ++ digits) where
  nonempty := List.append_ne_nil_of_right_ne_nil _ proper.nonempty
  all character member :=
    (List.mem_append.1 member).elim isDigit_of_mem_zeros (proper.all character)

/-- A whole part without needless zeros is scanned up to where its digits end. -/
theorem wholePart_append {digits rest : List Char} (proper : SomeDigits digits)
    (needed : digits.head? = some '0' → digits = ['0']) (ends : EndsDigits rest) :
    wholePart (digits ++ rest) = .ok (digits, rest) := by
  have scanned := someDigits_append proper ends
  rw [wholePart.eq_def]
  split
  next next others shape =>
    have front : digits.head? = some '0' := by
      rw [← List.head?_append_of_ne_nil digits proper.nonempty, shape]
      rfl
    obtain rfl := needed front
    obtain rfl : rest = next :: others := by simpa using shape
    simp [ends next rfl]
  next => exact scanned

/-- What stands in front of the exponent's digits, and the digits. -/
def exponentText (exponent : Int) : List Char :=
  'e' :: (if exponent < 0 then '-' else '+') :: Nat.toDigits 10 exponent.natAbs

/-- An exponent is read back as it was written. -/
theorem exponentPart_exponentText (exponent : Int) :
    exponentPart (exponentText exponent) = .ok (some exponent, []) := by
  have scanned := someDigits_append (someDigits_toDigits exponent.natAbs) endsNumeral_nil.digits
  rw [List.append_nil] at scanned
  by_cases negative : exponent < 0
  · have size : -(exponent.natAbs : Int) = exponent := by omega
    simp only [exponentText, if_pos negative, exponentPart, signedExponent, exponentSign, scanned]
    change Except.ok (some (-(digitsValue (Nat.toDigits 10 exponent.natAbs) : Int)), []) = _
    rw [digitsValue_toDigits, size]
  · have size : (exponent.natAbs : Int) = exponent := by omega
    simp only [exponentText, if_neg negative, exponentPart, signedExponent, exponentSign, scanned]
    change Except.ok (some (digitsValue (Nat.toDigits 10 exponent.natAbs) : Int), []) = _
    rw [digitsValue_toDigits, size]

/-- A numeral without its sign, taken apart. -/
structure NumeralParts where
  whole : List Char
  fraction : Option (List Char)
  exponent : Option Int

namespace NumeralParts

/-- The point and the digits behind it, if there are any. -/
def fractionText (parts : NumeralParts) : List Char :=
  match parts.fraction with
  | none => []
  | some digits => '.' :: digits

/-- The exponent, if there is one. -/
def powerText (parts : NumeralParts) : List Char :=
  match parts.exponent with
  | none => []
  | some exponent => exponentText exponent

/-- The parts, one after another. -/
def text (parts : NumeralParts) : List Char :=
  parts.whole ++ parts.fractionText ++ parts.powerText

/-- The decimal that the parts denote. -/
def decimal (parts : NumeralParts) : Decimal :=
  let places := parts.fraction.getD []
  ⟨digitsValue (parts.whole ++ places), parts.exponent.getD 0 - places.length⟩

/-- The parts as the scanner gives them. -/
def numeral (parts : NumeralParts) (negative : Bool) : Numeral :=
  ⟨negative, parts.decimal⟩

/-- Parts that make up a numeral: digits on each side, and no needless zero in front. -/
structure Proper (parts : NumeralParts) : Prop where
  whole : SomeDigits parts.whole
  needed : parts.whole.head? = some '0' → parts.whole = ['0']
  fraction : ∀ digits ∈ parts.fraction, SomeDigits digits

theorem endsDigits_powerText (parts : NumeralParts) : EndsDigits parts.powerText := by
  rw [powerText]
  split
  · exact nofun
  · rintro character ⟨⟩
    decide

/-- What stands behind the whole part does not start with a digit. -/
theorem endsDigits_fractionText (parts : NumeralParts) :
    EndsDigits (parts.fractionText ++ parts.powerText) := by
  rw [fractionText]
  split
  · exact endsDigits_powerText parts
  · rintro character ⟨⟩
    decide

variable {parts : NumeralParts}

theorem fractionPart_text (proper : parts.Proper) :
    fractionPart (parts.fractionText ++ parts.powerText) =
      .ok (parts.fraction, parts.powerText) := by
  cases shape : parts.fraction with
  | some digits =>
      have scanned := someDigits_append (proper.fraction digits shape) (endsDigits_powerText parts)
      simp [fractionText, shape, fractionPart, scanned]
  | none =>
      simp only [fractionText, shape, List.nil_append, powerText]
      split <;> rfl

theorem exponentPart_powerText (parts : NumeralParts) :
    exponentPart parts.powerText = .ok (parts.exponent, []) := by
  cases shape : parts.exponent with
  | some exponent => simpa only [powerText, shape] using exponentPart_exponentText exponent
  | none => simp [powerText, shape, exponentPart]

/-- The scanner takes a numeral apart as it was put together. -/
theorem unsignedNumeral_text (proper : parts.Proper) (negative : Bool) :
    unsignedNumeral negative parts.text = .ok (parts.numeral negative, []) := by
  have whole := wholePart_append proper.whole proper.needed (endsDigits_fractionText parts)
  simp only [unsignedNumeral, text, List.append_assoc, whole, fractionPart_text proper,
    exponentPart_powerText]
  rfl

end NumeralParts

end Json

/-! ## Figures and the parts that spell them -/

namespace Figures

open Json

/-- The decimal that figures stand for. -/
def decimal (figures : Figures) : Decimal :=
  ⟨digitsValue figures.digits, figures.point - figures.digits.length⟩

/-- Figures that start with a significant digit. -/
structure Proper (figures : Figures) : Prop where
  digits : SomeDigits figures.digits
  front : figures.digits.head? ≠ some '0'

/-- The digits of a decimal are its figures and the zeros behind them. -/
theorem exists_zeros (decimal : Decimal) :
    ∃ zeros, Nat.toDigits 10 decimal.digits =
      (ofDecimal decimal).digits ++ List.replicate zeros '0' := by
  set digits := Nat.toDigits 10 decimal.digits
  have parted : digits.rdropWhile (· == '0') ++ digits.rtakeWhile (· == '0') = digits :=
    List.rdropWhile_append_rtakeWhile
  have zeros : ∀ character ∈ digits.rtakeWhile (· == '0'), character = '0' := by
    intro character member
    simpa using List.mem_rtakeWhile_imp member
  refine ⟨(digits.rtakeWhile (· == '0')).length, ?_⟩
  rw [← List.eq_replicate_of_mem zeros]
  exact parted.symm

/-- Leaving out the zeros at the end does not change the value. -/
theorem sameValue_ofDecimal (decimal : Decimal) :
    (ofDecimal decimal).decimal.SameValue decimal := by
  obtain ⟨zeros, digits⟩ := exists_zeros decimal
  have value : decimal.digits = digitsValue (ofDecimal decimal).digits * 10 ^ zeros := by
    rw [← digitsValue_toDigits decimal.digits, digits, digitsValue_append]
    simp
  have place : (ofDecimal decimal).point - (ofDecimal decimal).digits.length =
      decimal.exponent + zeros := by
    have length := congrArg List.length digits
    simp only [List.length_append, List.length_replicate] at length
    change ((Nat.toDigits 10 decimal.digits).length : Int) + decimal.exponent - _ = _
    omega
  have shifted := Decimal.sameValue_shift (digitsValue (ofDecimal decimal).digits) zeros
    decimal.exponent
  rw [← value, ← place] at shifted
  exact shifted.symm

/-- The figures of a positive decimal start with a significant digit. -/
theorem proper_ofDecimal {decimal : Decimal} (positive : 0 < decimal.digits) :
    (ofDecimal decimal).Proper := by
  obtain ⟨zeros, digits⟩ := exists_zeros decimal
  have nonempty : (ofDecimal decimal).digits ≠ [] := by
    intro empty
    have value := digitsValue_toDigits decimal.digits
    simp only [digits, empty, List.nil_append, digitsValue_zeros] at value
    omega
  refine ⟨⟨nonempty, fun character member => ?_⟩, ?_⟩
  · have written : character ∈ Nat.toDigits 10 decimal.digits := by
      rw [digits]
      exact List.mem_append_left _ member
    exact isDigit_of_mem_toDigits written
  · rw [← List.head?_append_of_ne_nil _ nonempty, ← digits]
    exact head?_toDigits_ne_zero positive

/-- The parts of the positional form. -/
def positionalParts (figures : Figures) : NumeralParts :=
  if figures.point ≤ 0 then
    ⟨['0'], some (List.replicate (-figures.point).toNat '0' ++ figures.digits), none⟩
  else
    let whole := figures.point.toNat
    if figures.digits.length ≤ whole then
      ⟨figures.digits ++ List.replicate (whole - figures.digits.length) '0', some ['0'], none⟩
    else
      ⟨figures.digits.take whole, some (figures.digits.drop whole), none⟩

/-- The positional form has digits behind the point and no exponent. -/
theorem exists_positionalParts (figures : Figures) :
    ∃ whole fraction, figures.positionalParts = ⟨whole, some fraction, none⟩ := by
  simp only [positionalParts]
  split_ifs <;> exact ⟨_, _, rfl⟩

/-- The parts of the scientific form. -/
def scientificParts (figures : Figures) : NumeralParts :=
  match figures.digits with
  | [] => ⟨['0'], none, some (figures.point - 1)⟩
  | [digit] => ⟨[digit], none, some (figures.point - 1)⟩
  | digit :: others => ⟨[digit], some others, some (figures.point - 1)⟩

theorem text_positionalParts (figures : Figures) :
    figures.positionalParts.text = figures.positional := by
  simp only [positionalParts, positional]
  split_ifs <;> simp [NumeralParts.text, NumeralParts.fractionText, NumeralParts.powerText]

/-- The spelling with an exponent, part by part. -/
theorem text_scientificParts (figures : Figures) :
    figures.scientificParts.text = figures.scientific := by
  obtain ⟨digits, point⟩ := figures
  rcases digits with _ | ⟨digit, _ | ⟨next, others⟩⟩ <;>
    simp [scientificParts, scientific, NumeralParts.text, NumeralParts.fractionText,
      NumeralParts.powerText, exponentText]

variable {figures : Figures}

theorem proper_positionalParts (proper : figures.Proper) : figures.positionalParts.Proper := by
  have ⟨digits, front⟩ := proper
  simp only [positionalParts]
  split_ifs with fractional long
  · refine ⟨someDigits_zero, fun _ => rfl, ?_⟩
    rintro _ ⟨⟩
    exact digits.zeros_append _
  · refine ⟨digits.append_zeros _, fun zero => ?_, ?_⟩
    · rw [List.head?_append_of_ne_nil _ digits.nonempty] at zero
      exact absurd zero front
    · rintro _ ⟨⟩
      exact someDigits_zero
  · have positive : figures.point.toNat ≠ 0 := by omega
    refine ⟨⟨by simp [positive, digits.nonempty], fun _ member =>
      digits.all _ (List.mem_of_mem_take member)⟩, fun zero => ?_, ?_⟩
    · rw [List.head?_take, if_neg positive] at zero
      exact absurd zero front
    · rintro _ ⟨⟩
      exact ⟨by simpa using long, fun _ member => digits.all _ (List.mem_of_mem_drop member)⟩

theorem proper_scientificParts (proper : figures.Proper) : figures.scientificParts.Proper := by
  obtain ⟨digits, point⟩ := figures
  have ⟨⟨nonempty, all⟩, front⟩ := proper
  match digits with
  | [] => exact absurd rfl nonempty
  | [digit] => exact ⟨⟨by simp [scientificParts], all⟩, fun zero => absurd zero front, nofun⟩
  | digit :: next :: others =>
      refine ⟨⟨by simp [scientificParts], ?_⟩, fun zero => absurd zero front, ?_⟩
      · intro character member
        obtain rfl := List.mem_singleton.1 member
        exact all character List.mem_cons_self
      · rintro _ ⟨⟩
        exact ⟨by simp, fun character member => all character (List.mem_cons_of_mem _ member)⟩

/-- Zeros on either side of the figures do not change the value. -/
theorem sameValue_positionalParts (figures : Figures) :
    figures.positionalParts.decimal.SameValue figures.decimal := by
  simp only [positionalParts]
  split_ifs with fractional long
  · have value : digitsValue (['0'] ++ (List.replicate (-figures.point).toNat '0' ++
        figures.digits)) = digitsValue figures.digits := by
      simp only [digitsValue_append, digitsValue_zeros, digitsValue_zero]
      omega
    have place : (0 : Int) - (List.replicate (-figures.point).toNat '0' ++ figures.digits).length =
        figures.point - figures.digits.length := by
      simp only [List.length_append, List.length_replicate]
      omega
    simp only [NumeralParts.decimal, decimal, Option.getD_some, Option.getD_none, value, place]
    rfl
  · have shifted := Decimal.sameValue_shift (digitsValue figures.digits)
      (figures.point.toNat - figures.digits.length + 1) (-1)
    have value : digitsValue (figures.digits ++
        List.replicate (figures.point.toNat - figures.digits.length) '0' ++ ['0']) =
        digitsValue figures.digits * 10 ^ (figures.point.toNat - figures.digits.length + 1) := by
      simp only [digitsValue_append, digitsValue_zeros, digitsValue_zero, List.length_replicate,
        List.length_singleton, Nat.add_zero, Nat.mul_assoc, pow_add]
    have place : (-1 : Int) + ↑(figures.point.toNat - figures.digits.length + 1) =
        figures.point - figures.digits.length := by
      omega
    rw [← value, place] at shifted
    exact shifted
  · have value : digitsValue (figures.digits.take figures.point.toNat ++
        figures.digits.drop figures.point.toNat) = digitsValue figures.digits := by
      rw [List.take_append_drop]
    have place : (0 : Int) - (figures.digits.drop figures.point.toNat).length =
        figures.point - figures.digits.length := by
      simp only [List.length_drop]
      omega
    simp only [NumeralParts.decimal, decimal, Option.getD_some, Option.getD_none, value, place]
    rfl

/-- Moving the point is made up for by the exponent. -/
theorem decimal_scientificParts (proper : figures.Proper) :
    figures.scientificParts.decimal = figures.decimal := by
  obtain ⟨digits, point⟩ := figures
  match digits with
  | [] => exact absurd rfl proper.digits.nonempty
  | [digit] => simp [scientificParts, NumeralParts.decimal, decimal]
  | digit :: next :: others =>
      simp [scientificParts, NumeralParts.decimal, decimal]
      omega

end Figures

/-! ## Doubles and their numerals -/

namespace Binary64

/-- A double is its sign and its magnitude. -/
@[simp]
theorem ofMagnitude_magnitude (number : Binary64) :
    ofMagnitude number.isNegative number.magnitude = number := by
  have bound := number.bits.toNat_lt
  have bits : (if number.isNegative then signWeight + number.magnitude else number.magnitude) =
      number.bits.toNat := by
    by_cases negative : signWeight ≤ number.bits.toNat
    all_goals
      simp only [isNegative, negative, decide_true, decide_false, if_true, Bool.false_eq_true,
        if_false, magnitude]
      simp only [signWeight] at *
      omega
  rw [ofMagnitude, bits, UInt64.ofNat_toNat]

theorem lt_infiniteMagnitude {number : Binary64} (finite : number.isFinite = true) :
    number.magnitude < infiniteMagnitude :=
  of_decide_eq_true finite

end Binary64

theorem Decimal.nearest_eq_some {number : Binary64} (finite : number.isFinite = true)
    {decimal : Decimal} (reads : decimal.nearestMagnitude = number.magnitude) :
    decimal.nearest number.isNegative = some number := by
  simp [nearest, reads, Binary64.lt_infiniteMagnitude finite]

namespace Json

/-- The figures with which a double is written. -/
def figures (number : Binary64) : Figures :=
  .ofDecimal (Decimal.shortest .toEven number.magnitude)

/-- The parts with which a finite double is written. -/
def numeralParts (number : Binary64) : NumeralParts :=
  if number.isZero then
    ⟨['0'], some ['0'], none⟩
  else if -5 < (figures number).point ∧ (figures number).point ≤ 16 then
    (figures number).positionalParts
  else
    (figures number).scientificParts

/-- What the scanner makes of the numeral of a double. -/
def scannedNumeral (number : Binary64) : Numeral :=
  (numeralParts number).numeral number.isNegative

variable {number : Binary64}

/-- A double is written as its sign and the parts of its magnitude. -/
theorem shortestNumeral_eq (number : Binary64) :
    shortestNumeral number =
      if number.isNegative then '-' :: (numeralParts number).text
      else (numeralParts number).text := by
  have unsigned : (numeralParts number).text =
      if number.isZero then
        ['0', '.', '0']
      else if -5 < (figures number).point ∧ (figures number).point ≤ 16 then
        (figures number).positional
      else
        (figures number).scientific := by
    rw [numeralParts]
    split_ifs
    · rfl
    · exact Figures.text_positionalParts _
    · exact Figures.text_scientificParts _
  rw [unsigned]
  rfl

theorem proper_figures (finite : number.isFinite = true) (nonzero : ¬ number.isZero = true) :
    (figures number).Proper := by
  apply Figures.proper_ofDecimal
  apply Decimal.digits_shortest_pos .toEven (Binary64.lt_infiniteMagnitude finite)
  exact fun zero => nonzero (beq_of_eq zero)

theorem proper_numeralParts (finite : number.isFinite = true) : (numeralParts number).Proper := by
  rw [numeralParts]
  split_ifs with zero
  · refine ⟨someDigits_zero, fun _ => rfl, ?_⟩
    rintro _ ⟨⟩
    exact someDigits_zero
  · exact Figures.proper_positionalParts (proper_figures finite zero)
  · exact Figures.proper_scientificParts (proper_figures finite zero)

/-- The parts that are written denote a decimal that rounds to the double. -/
theorem nearestMagnitude_numeralParts (finite : number.isFinite = true) :
    (numeralParts number).decimal.nearestMagnitude = number.magnitude := by
  have bound := Binary64.lt_infiniteMagnitude finite
  have shortest := Decimal.nearestMagnitude_shortest .toEven bound
  have reads : (figures number).decimal.nearestMagnitude = number.magnitude :=
    (Decimal.reads_iff_of_sameValue (Figures.sameValue_ofDecimal _) bound).2 shortest
  rw [numeralParts]
  split_ifs with zero
  · exact (eq_of_beq zero).symm
  · exact (Decimal.reads_iff_of_sameValue (Figures.sameValue_positionalParts _) bound).2 reads
  · rwa [Figures.decimal_scientificParts (proper_figures finite zero)]

/-- The numeral of a finite double is scanned to its end. -/
theorem scanNumeral_shortestNumeral (finite : number.isFinite = true) :
    scanNumeral (shortestNumeral number) = .ok (scannedNumeral number, []) := by
  have unsigned := NumeralParts.unsignedNumeral_text (proper_numeralParts finite)
  rw [shortestNumeral_eq, scannedNumeral]
  split
  next negative =>
    rw [negative]
    exact unsigned true
  next positive =>
    rcases head_unsignedNumeral (unsigned false) with ⟨first, others, shape, digit⟩
    rw [Bool.not_eq_true] at positive
    rw [positive, ← unsigned, shape, scanNumeral.eq_def]
    split
    next signed =>
      cases signed
      exact absurd digit (by decide)
    next => rfl

/-- The shortest numerals are read back. -/
theorem NumberFormat.shortest_faithful : NumberFormat.shortest.Faithful := by
  intro double finite
  have scanned := scanNumeral_shortestNumeral finite
  have nearest : (scannedNumeral double).decimal.nearest (scannedNumeral double).negative =
      some double :=
    Decimal.nearest_eq_some finite (nearestMagnitude_numeralParts finite)
  simp [parse?, Reader.number, shortest, nearestDouble?, scanned, nearest]

end Json

end NodeMaterial
