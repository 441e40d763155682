import NodeMaterial.Json.NumberFormat

/-!
# JSON values and their texts

A value is written in two ways: compactly, with no blanks at all, and indented
by two blanks a level.  Object members keep their order.  Strings escape quote,
backslash and the control characters below the blank, and nothing else.

How a finite number is written is a parameter.  A number that is not finite is
written as `null`.
-/

namespace NodeMaterial.Json

/-- A JSON value; its numbers are doubles. -/
inductive Value where
  | null
  | bool (flag : Bool)
  | number (double : Binary64)
  | string (text : String)
  | array (items : List Value)
  | object (members : List (String × Value))

/-- The digit of a hexadecimal place, in lower case. -/
def hexDigit (place : Nat) : Char :=
  Nat.digitChar (place % 16)

/-- The written form of a character inside a string. -/
def escape (character : Char) : List Char :=
  match character with
  | '"' => ['\\', '"']
  | '\\' => ['\\', '\\']
  | '\x08' => ['\\', 'b']
  | '\t' => ['\\', 't']
  | '\n' => ['\\', 'n']
  | '\x0c' => ['\\', 'f']
  | '\r' => ['\\', 'r']
  | _ =>
      let code := character.toNat
      if code < 0x20 then
        ['\\', 'u', '0', '0', hexDigit (code / 16), hexDigit code]
      else
        [character]

/-- A string with its quotes. -/
def quote (text : List Char) : List Char :=
  '"' :: (text.flatMap escape ++ ['"'])

/-- The four letters or five letters of a truth value. -/
def truth : Bool → List Char
  | true => ['t', 'r', 'u', 'e']
  | false => ['f', 'a', 'l', 's', 'e']

namespace Value

variable (format : NumberFormat)

mutual

/-- The text of a value without blanks. -/
def compact : Value → List Char
  | .null => ['n', 'u', 'l', 'l']
  | .bool flag => truth flag
  | .number double => format.text double
  | .string text => quote text.toList
  | .array items => '[' :: (compactItems items ++ [']'])
  | .object members => '\x7b' :: (compactMembers members ++ ['\x7d'])

/-- The texts of values, parted by commas. -/
def compactItems : List Value → List Char
  | [] => []
  | [item] => compact item
  | item :: next :: others => compact item ++ ',' :: compactItems (next :: others)

/-- The texts of object members, parted by commas. -/
def compactMembers : List (String × Value) → List Char
  | [] => []
  | [(key, value)] => quote key.toList ++ ':' :: compact value
  | (key, value) :: next :: others =>
      quote key.toList ++ ':' :: (compact value ++ ',' :: compactMembers (next :: others))

end

/-- A line break and the blanks in front of a line at a given level. -/
def lineBreak (level : Nat) : List Char :=
  '\n' :: List.replicate (2 * level) ' '

mutual

/-- The text of a value over several lines, inside `level` open containers. -/
def indented (level : Nat) : Value → List Char
  | .array [] => ['[', ']']
  | .object [] => ['\x7b', '\x7d']
  | .array (item :: others) =>
      '[' :: (indentedItems (level + 1) (item :: others) ++ lineBreak level ++ [']'])
  | .object (member :: others) =>
      '\x7b' :: (indentedMembers (level + 1) (member :: others) ++ lineBreak level ++ ['\x7d'])
  | .null => ['n', 'u', 'l', 'l']
  | .bool flag => truth flag
  | .number double => format.text double
  | .string text => quote text.toList

/-- The texts of values, each on a line of its own. -/
def indentedItems (level : Nat) : List Value → List Char
  | [] => []
  | [item] => lineBreak level ++ indented level item
  | item :: next :: others =>
      lineBreak level ++ indented level item ++ ',' :: indentedItems level (next :: others)

/-- The texts of object members, each on a line of its own. -/
def indentedMembers (level : Nat) : List (String × Value) → List Char
  | [] => []
  | [(key, value)] => lineBreak level ++ quote key.toList ++ ':' :: ' ' :: indented level value
  | (key, value) :: next :: others =>
      lineBreak level ++ quote key.toList ++ ':' :: ' ' ::
        (indented level value ++ ',' :: indentedMembers level (next :: others))

end

/-- An optional text: the text as a string, or `null`. -/
def ofText? : Option String → Value
  | some text => .string text
  | none => .null

end Value

end NodeMaterial.Json
