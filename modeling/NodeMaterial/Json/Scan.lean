import NodeMaterial.Json.Draft
import NodeMaterial.Number.Decimal

/-!
# Strings and numerals in a text

The scanners take the characters that follow and say what they found and where
the text goes on.  A string is scanned twice over the same characters:
`closeString` finds its end and is content with unpaired surrogates,
`stringContent` decodes it and is not.
-/

namespace NodeMaterial.Json

/-- Blanks may stand between any two tokens. -/
def isBlank (character : Char) : Bool :=
  character == ' ' || character == '\n' || character == '\t' || character == '\r'

/-- A text without the blanks at its front. -/
def skipBlanks (text : List Char) : List Char :=
  text.dropWhile isBlank

def isDigit (character : Char) : Bool :=
  decide ('0' ≤ character) && decide (character ≤ '9')

/-- The value of a hexadecimal digit in either case. -/
def hexValue? (character : Char) : Option Nat :=
  let code := character.toNat
  if 48 ≤ code ∧ code ≤ 57 then some (code - 48)
  else if 97 ≤ code ∧ code ≤ 102 then some (code - 87)
  else if 65 ≤ code ∧ code ≤ 70 then some (code - 55)
  else none

/-- The code unit written by four hexadecimal digits. -/
def codeUnit? (first second third fourth : Char) : Option Nat :=
  match hexValue? first, hexValue? second, hexValue? third, hexValue? fourth with
  | some high, some upper, some lower, some low =>
      some (((high * 16 + upper) * 16 + lower) * 16 + low)
  | _, _, _, _ => none

/-- Whether a code unit is the first of a pair. -/
def isHighSurrogate (unit : Nat) : Bool :=
  decide (0xD800 ≤ unit) && decide (unit < 0xDC00)

/-- Whether a code unit is the second of a pair. -/
def isLowSurrogate (unit : Nat) : Bool :=
  decide (0xDC00 ≤ unit) && decide (unit < 0xE000)

/-- The character of a surrogate pair. -/
def pairedCharacter (high low : Nat) : Char :=
  Char.ofNat (0x10000 + (high - 0xD800) * 0x400 + (low - 0xDC00))

/-- The character that a one-letter escape stands for. -/
def escapedCharacter? : Char → Option Char
  | '"' => some '"'
  | '\\' => some '\\'
  | '/' => some '/'
  | 'b' => some '\x08'
  | 'f' => some '\x0c'
  | 'n' => some '\n'
  | 'r' => some '\r'
  | 't' => some '\t'
  | _ => none

/-- Whether a text has fewer than the four bytes of a code unit left. -/
def lacksCodeUnit (text : List Char) : Bool :=
  decide ((text.take 4).foldl (fun bytes character => bytes + character.utf8Size) 0 < 4)

/-- The text behind the quote that closes a string. -/
def closeString : List Char → Except Fault (List Char)
  | [] => .error .truncated
  | '"' :: rest => .ok rest
  | '\\' :: 'u' :: rest =>
      if lacksCodeUnit rest then .error .truncated
      else match rest with
        | first :: second :: third :: fourth :: rest =>
            match codeUnit? first second third fourth with
            | some _ => closeString rest
            | none => .error .malformed
        | _ => .error .malformed
  | '\\' :: letter :: rest =>
      match escapedCharacter? letter with
      | some _ => closeString rest
      | none => .error .malformed
  | ['\\'] => .error .truncated
  | character :: rest =>
      if character.toNat < 0x20 then .error .malformed else closeString rest

/-- The characters of a string up to the quote that closes it. -/
def stringContent : List Char → Except Fault (List Char)
  | [] => .error .truncated
  | '"' :: _ => .ok []
  | '\\' :: 'u' :: rest =>
      if lacksCodeUnit rest then .error .truncated
      else match rest with
        | first :: second :: third :: fourth :: rest =>
            match codeUnit? first second third fourth with
            | none => .error .malformed
            | some unit =>
                if isLowSurrogate unit then .error .malformed
                else if isHighSurrogate unit then
                  match rest with
                  | '\\' :: 'u' :: rest =>
                      if lacksCodeUnit rest then .error .truncated
                      else match rest with
                        | first :: second :: third :: fourth :: rest =>
                            match codeUnit? first second third fourth with
                            | none => .error .malformed
                            | some low =>
                                if isLowSurrogate low then
                                  (pairedCharacter unit low :: ·) <$> stringContent rest
                                else
                                  .error .malformed
                        | _ => .error .malformed
                  | [] => .error .truncated
                  | ['\\'] => .error .truncated
                  | _ => .error .malformed
                else
                  (Char.ofNat unit :: ·) <$> stringContent rest
        | _ => .error .malformed
  | '\\' :: letter :: rest =>
      match escapedCharacter? letter with
      | some character => (character :: ·) <$> stringContent rest
      | none => .error .malformed
  | ['\\'] => .error .truncated
  | character :: rest =>
      if character.toNat < 0x20 then
        .error .malformed
      else
        (character :: ·) <$> stringContent rest

/-- The number that a numeral writes: a decimal and the sign in front of it. -/
structure Numeral where
  negative : Bool
  decimal : Decimal
  deriving DecidableEq, Repr

/-- The natural number written by decimal digits. -/
def digitsValue (digits : List Char) : Nat :=
  digits.foldl (fun value digit => value * 10 + (digit.toNat - 48)) 0

/-- The fault of a text that has something else where a digit is due. -/
def digitFault (text : List Char) : Fault :=
  if text.isEmpty then .truncated else .malformed

/-- The digits at the front of a text, at least one of them, and the text behind them. -/
def someDigits (text : List Char) : Except Fault (List Char × List Char) :=
  let digits := text.takeWhile isDigit
  if digits.isEmpty then
    .error (digitFault text)
  else
    .ok (digits, text.dropWhile isDigit)

/-- The whole part of a numeral, which has no needless zero in front. -/
def wholePart (text : List Char) : Except Fault (List Char × List Char) :=
  match text with
  | '0' :: next :: rest =>
      if isDigit next then .error .malformed else .ok (['0'], next :: rest)
  | text => someDigits text

/-- The fraction of a numeral, if it has one. -/
def fractionPart (text : List Char) : Except Fault (Option (List Char) × List Char) :=
  match text with
  | '.' :: rest => (fun (digits, rest) => (some digits, rest)) <$> someDigits rest
  | text => .ok (none, text)

/-- The sign in front of an exponent's digits, and the text behind it. -/
def exponentSign : List Char → Bool × List Char
  | '+' :: rest => (false, rest)
  | '-' :: rest => (true, rest)
  | text => (false, text)

/-- An exponent behind its letter. -/
def signedExponent (text : List Char) : Except Fault (Option Int × List Char) :=
  let (negative, text) := exponentSign text
  (fun (digits, rest) =>
    let size : Int := digitsValue digits
    (some (if negative then -size else size), rest)) <$> someDigits text

/-- The exponent of a numeral, if it has one. -/
def exponentPart (text : List Char) : Except Fault (Option Int × List Char) :=
  match text with
  | 'e' :: rest => signedExponent rest
  | 'E' :: rest => signedExponent rest
  | text => .ok (none, text)

/-- A numeral without its sign. -/
def unsignedNumeral (negative : Bool) (text : List Char) : Except Fault (Numeral × List Char) :=
  match wholePart text with
  | .error fault => .error fault
  | .ok (whole, text) =>
      match fractionPart text with
      | .error fault => .error fault
      | .ok (fraction, text) =>
          match exponentPart text with
          | .error fault => .error fault
          | .ok (exponent, text) =>
              let places := fraction.getD []
              let decimal : Decimal :=
                ⟨digitsValue (whole ++ places), exponent.getD 0 - places.length⟩
              .ok (⟨negative, decimal⟩, text)

/-- A numeral and the text behind it. -/
def scanNumeral : List Char → Except Fault (Numeral × List Char)
  | '-' :: rest => unsignedNumeral true rest
  | text => unsignedNumeral false text

end NodeMaterial.Json
