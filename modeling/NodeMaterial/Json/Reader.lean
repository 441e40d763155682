import NodeMaterial.Json.NumberFormat

/-!
# From text to draft

The reader turns any text into a draft and the text behind its first value;
where a fault stops it there is no such text.  Every bracket and every comma
takes the reader at most two calls deeper and uses up a character, so twice the
length of the text bounds the calls: the bound is an explicit argument that
decreases.
-/

namespace NodeMaterial.Json

namespace Reader

/-- A reading: what was found, and the text behind it unless a fault stopped the reader. -/
abbrev Reading (α : Type) := α × Option (List Char)

/-- The end of a container whose last part could not be read. -/
def stopped : Ending :=
  .broken .malformed .malformed

/-- The rest of a word such as `true`, of which the first letter is read. -/
def word (draft : Draft) : List Char → List Char → Reading Draft
  | [], text => (draft, some text)
  | _ :: _, [] => (.broken .truncated .truncated, none)
  | letter :: letters, character :: text =>
      if letter = character then
        word draft letters text
      else
        (.broken .malformed .malformed, none)

/-- A string of which the first quote is read. -/
def string (text : List Char) : Reading (Option String) ⊕ Fault × Fault :=
  match closeString text, stringContent text with
  | .ok rest, .ok content => .inl (some (String.ofList content), some rest)
  | .ok rest, .error _ => .inl (none, some rest)
  | .error skipped, .ok _ => .inr (skipped, skipped)
  | .error skipped, .error fault => .inr (fault, skipped)

variable (format : NumberFormat)

/-- A numeral; one that is skipped is malformed even where the text ends too early. -/
def number (text : List Char) : Reading Draft :=
  match scanNumeral text with
  | .ok (_, rest) =>
      let numeral := text.take (text.length - rest.length)
      (.number numeral (format.read numeral), some rest)
  | .error fault => (.broken fault .malformed, none)

mutual

/-- The value at the front of a text. -/
def value : Nat → List Char → Reading Draft
  | 0, _ => (.broken .malformed .malformed, none)
  | bound + 1, text =>
      match skipBlanks text with
      | [] => (.broken .truncated .truncated, none)
      | 'n' :: rest => word .null ['u', 'l', 'l'] rest
      | 't' :: rest => word (.bool true) ['r', 'u', 'e'] rest
      | 'f' :: rest => word (.bool false) ['a', 'l', 's', 'e'] rest
      | '"' :: rest =>
          match string rest with
          | .inl (content, rest) => (.string content, rest)
          | .inr (fault, skipped) => (.broken fault skipped, none)
      | '[' :: rest =>
          match skipBlanks rest with
          | [] => (.array [] (.broken .truncated .truncated), none)
          | ']' :: rest => (.array [] .closed, some rest)
          | rest =>
              let ((items, ending), rest) := items bound rest
              (.array items ending, rest)
      | '\x7b' :: rest =>
          match skipBlanks rest with
          | [] => (.object [] (.broken .truncated .truncated), none)
          | '\x7d' :: rest => (.object [] .closed, some rest)
          | rest =>
              let ((members, ending), rest) := members bound rest
              (.object members ending, rest)
      | character :: rest =>
          if isDigit character || character == '-' then
            number format (character :: rest)
          else
            (.broken .malformed .malformed, none)

/-- The items of an array, at least one of them. -/
def items : Nat → List Char → Reading (List Draft × Ending)
  | 0, _ => (([], stopped), none)
  | bound + 1, text =>
      match value bound text with
      | (item, none) => (([item], stopped), none)
      | (item, some rest) =>
          match skipBlanks rest with
          | [] => (([item], .broken .truncated .truncated), none)
          | ']' :: rest => (([item], .closed), some rest)
          | ',' :: rest =>
              let ((others, ending), rest) := items bound rest
              ((item :: others, ending), rest)
          | _ => (([item], .broken .malformed .malformed), none)

/-- The members of an object, at least one of them. -/
def members : Nat → List Char → Reading (List (Option String × Draft) × Ending)
  | 0, _ => (([], stopped), none)
  | bound + 1, text =>
      match skipBlanks text with
      | [] => (([], .broken .truncated .truncated), none)
      | '"' :: rest =>
          match string rest with
          | .inr (fault, skipped) => (([], .broken fault skipped), none)
          | .inl (_, none) => (([], stopped), none)
          | .inl (key, some rest) =>
              match skipBlanks rest with
              | [] => (([(key, .broken .truncated .truncated)], stopped), none)
              | ':' :: rest =>
                  match value bound rest with
                  | (value, none) => (([(key, value)], stopped), none)
                  | (value, some rest) =>
                      match skipBlanks rest with
                      | [] => (([(key, value)], .broken .truncated .truncated), none)
                      | '\x7d' :: rest => (([(key, value)], .closed), some rest)
                      | ',' :: rest =>
                          let ((others, ending), rest) := members bound rest
                          (((key, value) :: others, ending), rest)
                      | _ => (([(key, value)], .broken .malformed .malformed), none)
              | _ => (([(key, .broken .malformed .malformed)], stopped), none)
      | _ => (([], .broken .malformed .malformed), none)

end

end Reader

/-- The draft of the value at the front of a text, and the text behind it. -/
def Draft.ofText (format : NumberFormat) (text : List Char) : Reader.Reading Draft :=
  Reader.value format (2 * text.length + 2) text

end NodeMaterial.Json
