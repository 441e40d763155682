import Mathlib.Data.List.TakeWhile
import NodeMaterial.Json.Reader

/-!
# Numerals in front of other text

A numeral that is scanned to its end is scanned as the same numeral in front of
every text that cannot continue it (`scanNumeral_extend`).  So a number format
that reads its own numerals back (`NumberFormat.Faithful`) does so inside a longer
text as well.
-/

namespace NodeMaterial.Json

/-! ## Digits -/

/-- A text that does not start with a digit. -/
def EndsDigits (rest : List Char) : Prop :=
  ∀ character ∈ rest.head?, isDigit character = false

/-- A text that cannot continue a numeral in front of it. -/
structure EndsNumeral (rest : List Char) : Prop where
  digits : EndsDigits rest
  letters : ∀ character ∈ rest.head?, character ∉ ['.', 'e', 'E']

theorem endsNumeral_nil : EndsNumeral [] :=
  ⟨nofun, nofun⟩

/-- At least one digit and nothing else. -/
structure SomeDigits (digits : List Char) : Prop where
  nonempty : digits ≠ []
  all : ∀ character ∈ digits, isDigit character = true

theorem someDigits_append {digits rest : List Char} (proper : SomeDigits digits)
    (ends : EndsDigits rest) : someDigits (digits ++ rest) = .ok (digits, rest) := by
  have taken : rest.takeWhile isDigit = [] ∧ rest.dropWhile isDigit = rest := by
    cases rest with
    | nil => exact ⟨rfl, rfl⟩
    | cons next others => simp [ends next rfl]
  simp [someDigits, List.takeWhile_append_of_pos proper.all,
    List.dropWhile_append_of_pos proper.all, taken, proper.nonempty]

variable {text digits remaining rest : List Char}

/-- Scanned digits are the front of the text, and no digit follows them. -/
theorem someDigits_eq_ok (scanned : someDigits text = .ok (digits, remaining)) :
    SomeDigits digits ∧ text = digits ++ remaining ∧ EndsDigits remaining := by
  rw [someDigits] at scanned
  split at scanned
  · cases scanned
  next nonempty =>
    cases scanned
    refine ⟨⟨by simpa using nonempty, fun _ => List.mem_takeWhile_imp⟩,
      (List.takeWhile_append_dropWhile ..).symm, fun character first => ?_⟩
    have stopped := List.head?_dropWhile_not isDigit text
    rw [Option.mem_def.mp first] at stopped
    exact stopped

/-- Digits are scanned alike in front of a text that does not go on with digits. -/
theorem someDigits_extend (scanned : someDigits text = .ok (digits, remaining))
    (ends : EndsDigits rest) : someDigits (text ++ rest) = .ok (digits, remaining ++ rest) := by
  rcases someDigits_eq_ok scanned with ⟨proper, rfl, stopped⟩
  rw [List.append_assoc]
  apply someDigits_append proper
  cases remaining with
  | nil => exact ends
  | cons first others => exact stopped

/-! ## The parts of a numeral -/

theorem wholePart_extend (scanned : wholePart text = .ok (digits, remaining))
    (ends : EndsDigits rest) : wholePart (text ++ rest) = .ok (digits, remaining ++ rest) := by
  rw [wholePart.eq_def] at scanned
  split at scanned
  next next others =>
    split at scanned
    · cases scanned
    next other =>
      cases scanned
      simp [wholePart, other]
  next longer =>
    have extended := someDigits_extend scanned ends
    rw [wholePart.eq_def]
    split
    next next others shape =>
      -- Only a single zero becomes a zero with something behind it.
      match text, longer, scanned, shape with
      | [first], _, scanned, shape =>
          cases shape
          have single : someDigits ['0'] = .ok (['0'], []) := rfl
          rw [single] at scanned
          cases scanned
          simp [ends next rfl]
      | first :: second :: behind, longer, _, shape =>
          rw [List.cons_append, List.cons.injEq] at shape
          exact absurd (by rw [shape.1]) (longer second behind)
    next => exact extended

/-- A whole part starts with a digit. -/
theorem head_wholePart (scanned : wholePart text = .ok (digits, remaining)) :
    ∃ first others, text = first :: others ∧ isDigit first = true := by
  rw [wholePart.eq_def] at scanned
  split at scanned
  next => exact ⟨_, _, rfl, by decide⟩
  next =>
    rcases someDigits_eq_ok scanned with ⟨proper, rfl, -⟩
    rcases List.exists_cons_of_ne_nil proper.nonempty with ⟨first, others, rfl⟩
    exact ⟨first, others ++ remaining, rfl, proper.all first List.mem_cons_self⟩

/-- A text that does not start with a point or an `e` does not do so in front of others. -/
theorem EndsNumeral.append_ne {letter : Char} (ends : EndsNumeral rest)
    (marks : letter ∈ ['.', 'e', 'E']) (unmarked : ∀ others, text ≠ letter :: others)
    (others : List Char) : text ++ rest ≠ letter :: others := by
  intro shape
  cases text with
  | nil => exact ends.letters letter (by rw [← List.nil_append rest, shape]; rfl) marks
  | cons first behind => exact unmarked behind (by rw [(List.cons.inj shape).1])

theorem fractionPart_extend {fraction : Option (List Char)}
    (scanned : fractionPart text = .ok (fraction, remaining)) (ends : EndsNumeral rest) :
    fractionPart (text ++ rest) = .ok (fraction, remaining ++ rest) := by
  rw [fractionPart.eq_def] at scanned
  split at scanned
  next others =>
    cases digits : someDigits others with
    | error fault => simp [digits] at scanned
    | ok found =>
        have extended := someDigits_extend digits ends.digits
        simp_all [fractionPart]
  next unmarked =>
    cases scanned
    rw [fractionPart.eq_def]
    split
    next shape => exact absurd shape (ends.append_ne (by decide) unmarked _)
    next => rfl

/-- A sign is found in front of what follows, if anything stands there. -/
theorem exponentSign_extend (nonempty : text ≠ []) :
    exponentSign (text ++ rest) = ((exponentSign text).1, (exponentSign text).2 ++ rest) := by
  rcases List.exists_cons_of_ne_nil nonempty with ⟨first, others, rfl⟩
  by_cases plus : first = '+'
  · simp [exponentSign, plus]
  by_cases minus : first = '-'
  · simp [exponentSign, minus]
  simp [exponentSign, plus, minus]

theorem signedExponent_extend {exponent : Option Int}
    (scanned : signedExponent text = .ok (exponent, remaining)) (ends : EndsDigits rest) :
    signedExponent (text ++ rest) = .ok (exponent, remaining ++ rest) := by
  rw [signedExponent] at scanned ⊢
  cases digits : someDigits (exponentSign text).2 with
  | error fault => simp [digits] at scanned
  | ok found =>
      have extended := someDigits_extend digits ends
      have nonempty : text ≠ [] := by
        rintro rfl
        cases digits
      simp_all [exponentSign_extend nonempty]

/-- An exponent that is scanned to its end stays the same with other text behind. -/
theorem exponentPart_extend {exponent : Option Int}
    (scanned : exponentPart text = .ok (exponent, remaining)) (ends : EndsNumeral rest) :
    exponentPart (text ++ rest) = .ok (exponent, remaining ++ rest) := by
  rw [exponentPart.eq_def] at scanned
  split at scanned
  next => exact signedExponent_extend scanned ends.digits
  next => exact signedExponent_extend scanned ends.digits
  next small large =>
    cases scanned
    rw [exponentPart.eq_def]
    split
    next shape => exact absurd shape (ends.append_ne (by decide) small _)
    next shape => exact absurd shape (ends.append_ne (by decide) large _)
    next => rfl

/-! ## Numerals -/

/-- A numeral is scanned part by part, and each part stops where it stopped before. -/
theorem unsignedNumeral_extend {negative : Bool} {numeral : Numeral}
    (scanned : unsignedNumeral negative text = .ok (numeral, remaining))
    (ends : EndsNumeral rest) :
    unsignedNumeral negative (text ++ rest) = .ok (numeral, remaining ++ rest) := by
  simp only [unsignedNumeral] at scanned
  split at scanned
  · cases scanned
  next whole behindWhole wholeScanned =>
    split at scanned
    · cases scanned
    next fraction behindFraction fractionScanned =>
      split at scanned
      · cases scanned
      next exponent behind exponentScanned =>
        cases scanned
        simp only [unsignedNumeral, wholePart_extend wholeScanned ends.digits,
          fractionPart_extend fractionScanned ends, exponentPart_extend exponentScanned ends]

theorem head_unsignedNumeral {negative : Bool} {numeral : Numeral}
    (scanned : unsignedNumeral negative text = .ok (numeral, remaining)) :
    ∃ first others, text = first :: others ∧ isDigit first = true := by
  simp only [unsignedNumeral] at scanned
  split at scanned
  · cases scanned
  next whole => exact head_wholePart whole

/--
A scanned numeral is the same numeral in front of every text that cannot continue it.
-/
theorem scanNumeral_extend {numeral : Numeral}
    (scanned : scanNumeral text = .ok (numeral, remaining)) (ends : EndsNumeral rest) :
    scanNumeral (text ++ rest) = .ok (numeral, remaining ++ rest) := by
  rw [scanNumeral.eq_def] at scanned
  split at scanned
  next others => exact unsignedNumeral_extend scanned ends
  next unsigned =>
    rcases head_unsignedNumeral scanned with ⟨first, others, rfl, digit⟩
    have extended := unsignedNumeral_extend scanned ends
    rw [scanNumeral.eq_def]
    split
    next shape => exact absurd (by simp_all) (unsigned others)
    next => exact extended

/-- A numeral starts with a digit or a sign. -/
theorem head_scanNumeral {numeral : Numeral}
    (scanned : scanNumeral text = .ok (numeral, remaining)) :
    ∃ first others, text = first :: others ∧ (isDigit first = true ∨ first = '-') := by
  rw [scanNumeral.eq_def] at scanned
  split at scanned
  next others => exact ⟨'-', others, rfl, .inr rfl⟩
  next =>
    rcases head_unsignedNumeral scanned with ⟨first, others, shape, digit⟩
    exact ⟨first, others, shape, .inl digit⟩

/-! ## Formats that read their own numerals -/

namespace NumberFormat

/-- The double of a text that is a numeral and nothing else. -/
def parse? (format : NumberFormat) (text : List Char) : Option Binary64 :=
  match Reader.number format text with
  | (.number _ double, some []) => double
  | _ => none

/-- Printing a finite double and reading the text gives the same double. -/
def Faithful (format : NumberFormat) : Prop :=
  ∀ double : Binary64, double.isFinite = true → format.parse? (format.write double) = some double

variable {format : NumberFormat} {double : Binary64}

/-- A text that parses is a numeral from end to end, and the format reads it. -/
theorem parse?_eq_some (parsed : format.parse? text = some double) :
    (∃ numeral, scanNumeral text = .ok (numeral, [])) ∧ format.read text = some double := by
  rw [parse?, Reader.number] at parsed
  split at parsed
  next read =>
    split at read
    next numeral rest scanned =>
      cases read
      rw [List.length_nil, Nat.sub_zero, List.take_length] at parsed
      exact ⟨⟨numeral, scanned⟩, parsed⟩
    · cases read
  · cases parsed

/-- The reader finds a text that stands for a double in front of what cannot continue it. -/
theorem number_append (parsed : format.parse? text = some double) (ends : EndsNumeral rest) :
    Reader.number format (text ++ rest) = (.number text (some double), some rest) := by
  rcases parse?_eq_some parsed with ⟨⟨numeral, scanned⟩, read⟩
  have extended := scanNumeral_extend scanned ends
  rw [List.nil_append] at extended
  simp [Reader.number, extended, read]

/-- The first character tells a number from any other value. -/
theorem head_of_parse? (parsed : format.parse? text = some double) :
    ∃ first others, text = first :: others ∧ (isDigit first = true ∨ first = '-') := by
  rcases parse?_eq_some parsed with ⟨⟨numeral, scanned⟩, -⟩
  exact head_scanNumeral scanned

end NumberFormat

end NodeMaterial.Json
