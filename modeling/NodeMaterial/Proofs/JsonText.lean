import NodeMaterial.Json.Record
import NodeMaterial.Json.Value
import NodeMaterial.Proofs.NumeralTokens

/-!
# Compact texts are read back

Every value has a draft, and the reader makes this draft of the value's compact
text, whatever follows (`Value.value_compact`).  All that is asked of the number
format is that it reads its own numerals back.
-/

namespace NodeMaterial.Json

/-! ## Strings -/

/-- A character is written as a letter behind a backslash, by its code, or as it is. -/
theorem escape_cases (character : Char) :
    (∃ letter, letter ≠ 'u' ∧ escapedCharacter? letter = some character ∧
      escape character = ['\\', letter]) ∨
    (character.toNat < 32 ∧ escape character =
      ['\\', 'u', '0', '0', hexDigit (character.toNat / 16), hexDigit character.toNat]) ∨
    (32 ≤ character.toNat ∧ character ≠ '"' ∧ character ≠ '\\' ∧
      escape character = [character]) := by
  rw [escape.eq_def]
  split
  case h_8 unquoted unslashed _ _ _ _ _ =>
    right
    dsimp only
    split
    next control => exact .inl ⟨control, rfl⟩
    next visible => exact .inr ⟨Nat.not_lt.1 visible, unquoted, unslashed, rfl⟩
  all_goals exact .inl ⟨_, by decide, rfl, rfl⟩

theorem codeUnit?_control : ∀ code < 32,
    codeUnit? '0' '0' (hexDigit (code / 16)) (hexDigit code) = some code := by
  decide

/-- Four characters are enough for a code unit, since each has at least one byte. -/
theorem lacksCodeUnit_cons (first second third fourth : Char) (rest : List Char) :
    lacksCodeUnit (first :: second :: third :: fourth :: rest) = false := by
  have := first.utf8Size_pos
  have := second.utf8Size_pos
  have := third.utf8Size_pos
  have := fourth.utf8Size_pos
  simp [lacksCodeUnit]
  omega

/-- No written character ends a string. -/
theorem closeString_escape (character : Char) (rest : List Char) :
    closeString (escape character ++ rest) = closeString rest := by
  obtain ⟨letter, other, escaped, written⟩ | ⟨control, written⟩ |
    ⟨visible, unquoted, unslashed, written⟩ := escape_cases character
  · simp [written, closeString, escaped]
  · simp [written, closeString, lacksCodeUnit_cons, codeUnit?_control _ control]
  · simp [written, closeString, unslashed, Nat.not_lt.2 visible]

/-- Every written character is decoded as itself. -/
theorem stringContent_escape (character : Char) (rest : List Char) :
    stringContent (escape character ++ rest) = (character :: ·) <$> stringContent rest := by
  obtain ⟨letter, other, escaped, written⟩ | ⟨control, written⟩ |
    ⟨visible, unquoted, unslashed, written⟩ := escape_cases character
  · simp [written, stringContent, escaped]
  · have unpaired : isLowSurrogate character.toNat = false ∧
        isHighSurrogate character.toNat = false := by
      simp [isLowSurrogate, isHighSurrogate]
      omega
    simp [written, stringContent, lacksCodeUnit_cons, codeUnit?_control _ control, unpaired]
  · simp [written, stringContent, unslashed, Nat.not_lt.2 visible]

theorem closeString_text (text rest : List Char) :
    closeString (text.flatMap escape ++ '"' :: rest) = .ok rest := by
  induction text with
  | nil => rfl
  | cons character others closed =>
      rw [List.flatMap_cons, List.append_assoc, closeString_escape, closed]

theorem stringContent_text (text rest : List Char) :
    stringContent (text.flatMap escape ++ '"' :: rest) = .ok text := by
  induction text with
  | nil => rfl
  | cons character others decoded =>
      rw [List.flatMap_cons, List.append_assoc, stringContent_escape, decoded]
      rfl

/-- A quoted text is read as the text, whatever its characters are. -/
theorem string_text (text rest : List Char) :
    Reader.string (text.flatMap escape ++ '"' :: rest) =
      .inl (some (String.ofList text), some rest) := by
  simp only [Reader.string, closeString_text, stringContent_text]

/-! ## Drafts of values -/

namespace Value

variable (format : NumberFormat)

mutual

/-- What the reader finds in the text of a value. -/
def draft : Value → Draft
  | .null => .null
  | .bool flag => .bool flag
  | .number double =>
      if double.isFinite then .number (format.write double) (some double) else .null
  | .string text => .string (some text)
  | .array items => .array (itemDrafts items) .closed
  | .object members => .object (memberDrafts members) .closed

/-- The drafts of values. -/
def itemDrafts : List Value → List Draft
  | [] => []
  | item :: others => draft item :: itemDrafts others

/-- The drafts of object members. -/
def memberDrafts : List (String × Value) → List (Option String × Draft)
  | [] => []
  | (key, value) :: others => (some key, draft value) :: memberDrafts others

end

end Value

/-! ## Values -/

/-- A character that values start with. -/
abbrev Starts (first : Char) : Prop :=
  isDigit first = true ∨ first ∈ ['-', 'n', 't', 'f', '"', '[', '\x7b']

theorem not_starts : ∀ first ∈ [' ', '\n', '\t', '\r', ']'], ¬ Starts first := by
  simp [Starts, isDigit]

theorem skipBlanks_of_starts {first : Char} (starts : Starts first) (rest : List Char) :
    skipBlanks (first :: rest) = first :: rest := by
  have other := fun blank => not_starts first blank starts
  simp_all [skipBlanks, isBlank]

theorem starts_of_digit {first : Char} (digit : isDigit first = true ∨ first = '-') :
    Starts first :=
  digit.imp_right (by simp_all)

variable {format : NumberFormat}

/-- The text of a value starts with the sign of its shape. -/
theorem starts_compact (faithful : format.Faithful) (value : Value) :
    ∃ first others, value.compact format = first :: others ∧ Starts first := by
  cases value with
  | null => exact ⟨_, _, rfl, .inr (by decide)⟩
  | bool flag => cases flag <;> exact ⟨_, _, rfl, .inr (by decide)⟩
  | number double =>
      by_cases finite : double.isFinite = true
      · obtain ⟨first, others, shape, digit⟩ :=
          NumberFormat.head_of_parse? (faithful double finite)
        exact ⟨first, others, by rw [Value.compact, NumberFormat.text, if_pos finite, shape],
          starts_of_digit digit⟩
      · exact ⟨_, _, if_neg finite, .inr (by decide)⟩
  | string text => exact ⟨_, _, rfl, .inr (by decide)⟩
  | array items => exact ⟨_, _, rfl, .inr (by decide)⟩
  | object members => exact ⟨_, _, rfl, .inr (by decide)⟩

theorem starts_compactItems (faithful : format.Faithful) (item : Value) (others : List Value) :
    ∃ first behind, Value.compactItems format (item :: others) = first :: behind ∧
      Starts first := by
  obtain ⟨first, behind, shape, starts⟩ := starts_compact faithful item
  cases others with
  | nil => exact ⟨first, behind, shape, starts⟩
  | cons next others =>
      exact ⟨first, _, by rw [Value.compactItems, shape, List.cons_append], starts⟩

theorem head_compactMembers (member : String × Value) (others : List (String × Value)) :
    ∃ behind, Value.compactMembers format (member :: others) = '"' :: behind := by
  cases others <;> exact ⟨_, rfl⟩

/-- Commas and closing brackets end a numeral. -/
theorem endsNumeral_of_mem {first : Char} (closes : first ∈ [',', ']', '\x7d'])
    (rest : List Char) : EndsNumeral (first :: rest) := by
  have other : ∀ character ∈ [',', ']', '\x7d'],
      isDigit character = false ∧ character ∉ ['.', 'e', 'E'] := by
    simp [isDigit]
  constructor <;> rintro _ ⟨⟩
  · exact (other first closes).1
  · exact (other first closes).2

namespace Reader

theorem value_string (bound : Nat) (text rest : List Char) :
    value format (bound + 1) (quote text ++ rest) =
      (.string (some (String.ofList text)), some rest) := by
  simp [value, quote, skipBlanks, isBlank, string_text]

/-- A digit or a sign starts a number. -/
theorem value_numeral (bound : Nat) {first : Char} (starts : isDigit first = true ∨ first = '-')
    (rest : List Char) :
    value format (bound + 1) (first :: rest) = number format (first :: rest) := by
  have other : ∀ character ∈ ['n', 't', 'f', '"', '[', '\x7b'],
      ¬ (isDigit character = true ∨ character = '-') := by
    simp [isDigit]
  have apart := fun member => other first member starts
  have blanks := skipBlanks_of_starts (starts_of_digit starts) rest
  rw [value, blanks]
  simp_all

/-- An array that does not close at once has items. -/
theorem value_array (format : NumberFormat) (bound : Nat) {first : Char} (starts : Starts first)
    (rest : List Char) :
    value format (bound + 1) ('[' :: first :: rest) =
      (.array (items format bound (first :: rest)).1.1 (items format bound (first :: rest)).1.2,
        (items format bound (first :: rest)).2) := by
  have unclosed : first ≠ ']' := fun closed => not_starts first (by simp [closed]) starts
  have blanks := skipBlanks_of_starts starts rest
  have opened : skipBlanks ('[' :: first :: rest) = '[' :: first :: rest :=
    skipBlanks_of_starts (.inr (by decide)) _
  simp [value, opened, blanks, unclosed]

theorem value_object (format : NumberFormat) (bound : Nat) (rest : List Char) :
    value format (bound + 1) ('\x7b' :: '"' :: rest) =
      (.object (members format bound ('"' :: rest)).1.1 (members format bound ('"' :: rest)).1.2,
        (members format bound ('"' :: rest)).2) := by
  simp [value, skipBlanks, isBlank]

/-- A number is read back, and `null` where there is none. -/
theorem value_number (faithful : format.Faithful) (bound : Nat) (double : Binary64)
    {rest : List Char} (ends : EndsNumeral rest) :
    value format (bound + 1) (format.text double ++ rest) =
      ((Value.number double).draft format, some rest) := by
  by_cases finite : double.isFinite = true
  · have parsed := faithful double finite
    obtain ⟨first, others, shape, starts⟩ := NumberFormat.head_of_parse? parsed
    have found := NumberFormat.number_append parsed ends
    rw [NumberFormat.text, Value.draft, if_pos finite, if_pos finite, ← found, shape,
      List.cons_append, value_numeral bound starts]
  · rw [NumberFormat.text, Value.draft, if_neg finite, if_neg finite]
    rfl

/-- Behind a comma the items go on. -/
theorem items_cons (bound : Nat) {text rest : List Char} {item : Draft}
    (read : value format bound text = (item, some (',' :: rest))) :
    items format (bound + 1) text =
      ((item :: (items format bound rest).1.1, (items format bound rest).1.2),
        (items format bound rest).2) := by
  simp [items, read, skipBlanks, isBlank]

theorem items_last (bound : Nat) {text rest : List Char} {item : Draft}
    (read : value format bound text = (item, some (']' :: rest))) :
    items format (bound + 1) text = (([item], .closed), some rest) := by
  simp [items, read, skipBlanks, isBlank]

/-- Behind a comma the members go on. -/
theorem members_cons (bound : Nat) (key : List Char) {text rest : List Char} {draft : Draft}
    (read : value format bound text = (draft, some (',' :: rest))) :
    members format (bound + 1) (quote key ++ ':' :: text) =
      (((some (String.ofList key), draft) :: (members format bound rest).1.1,
          (members format bound rest).1.2),
        (members format bound rest).2) := by
  simp [members, quote, string_text, read, skipBlanks, isBlank]

theorem members_last (bound : Nat) (key : List Char) {text rest : List Char} {draft : Draft}
    (read : value format bound text = (draft, some ('\x7d' :: rest))) :
    members format (bound + 1) (quote key ++ ':' :: text) =
      (([(some (String.ofList key), draft)], .closed), some rest) := by
  simp [members, quote, string_text, read, skipBlanks, isBlank]

end Reader

namespace Value

open Reader

-- Every bracket and every comma is one character and costs at most one call, so a bound from the
-- length of the text on is enough; the items and members need one call more.
mutual

/-- The reader finds the draft of a value at the front of its compact text. -/
theorem value_compact (faithful : format.Faithful) (value : Value) (bound : Nat)
    (rest : List Char) (enough : (value.compact format).length ≤ bound)
    (ends : EndsNumeral rest) :
    Reader.value format bound (value.compact format ++ rest) =
      (value.draft format, some rest) := by
  obtain ⟨first, others, shape, -⟩ := starts_compact faithful value
  obtain ⟨bound, rfl⟩ : ∃ less, bound = less + 1 := by
    rw [shape, List.length_cons] at enough
    exact ⟨bound - 1, by omega⟩
  match value with
  | .null => rfl
  | .bool true => rfl
  | .bool false => rfl
  | .number double => exact value_number faithful bound double ends
  | .string text =>
      rw [compact, value_string, draft, String.ofList_toList]
  | .array [] => rfl
  | .array (item :: others) =>
      simp only [compact, List.length_cons, List.length_append, List.length_nil] at enough
      have read := items_compact faithful (item :: others) bound rest (by simp) (by omega)
      obtain ⟨first, behind, shape, starts⟩ := starts_compactItems faithful item others
      have opened := value_array format bound starts (behind ++ ']' :: rest)
      rw [← List.cons_append, ← shape, read] at opened
      simpa only [compact, draft, List.append_assoc, List.cons_append, List.nil_append] using opened
  | .object [] => rfl
  | .object (member :: others) =>
      simp only [compact, List.length_cons, List.length_append, List.length_nil] at enough
      have read := members_compact faithful (member :: others) bound rest (by simp) (by omega)
      obtain ⟨behind, shape⟩ := head_compactMembers member others
      have opened := value_object format bound (behind ++ '\x7d' :: rest)
      rw [← List.cons_append, ← shape, read] at opened
      simpa only [compact, draft, List.append_assoc, List.cons_append, List.nil_append] using opened

/-- The reader finds the drafts of the items in front of a closing bracket. -/
theorem items_compact (faithful : format.Faithful) (items : List Value) (bound : Nat)
    (rest : List Char) (nonempty : items ≠ [])
    (enough : (compactItems format items).length < bound) :
    Reader.items format bound (compactItems format items ++ ']' :: rest) =
      ((itemDrafts format items, .closed), some rest) := by
  obtain ⟨bound, rfl⟩ : ∃ less, bound = less + 1 := ⟨bound - 1, by omega⟩
  match items with
  | [item] =>
      have read := value_compact faithful item bound (']' :: rest) (Nat.le_of_lt_succ enough)
        (endsNumeral_of_mem (by decide) rest)
      exact items_last bound read
  | item :: next :: others =>
      simp only [compactItems, List.length_append, List.length_cons] at enough
      have read := value_compact faithful item bound
        (',' :: (compactItems format (next :: others) ++ ']' :: rest)) (by omega)
        (endsNumeral_of_mem (by decide) _)
      have remaining := items_compact faithful (next :: others) bound rest (by simp) (by omega)
      have step := items_cons bound read
      rw [remaining] at step
      simpa only [compactItems, itemDrafts, List.append_assoc, List.cons_append] using step

/-- The reader finds the drafts of the members in front of a closing brace. -/
theorem members_compact (faithful : format.Faithful) (members : List (String × Value))
    (bound : Nat) (rest : List Char) (nonempty : members ≠ [])
    (enough : (compactMembers format members).length < bound) :
    Reader.members format bound (compactMembers format members ++ '\x7d' :: rest) =
      ((memberDrafts format members, .closed), some rest) := by
  obtain ⟨bound, rfl⟩ : ∃ less, bound = less + 1 := ⟨bound - 1, by omega⟩
  match members with
  | [(key, value)] =>
      simp only [compactMembers, List.length_append, List.length_cons] at enough
      have read := value_compact faithful value bound ('\x7d' :: rest) (by omega)
        (endsNumeral_of_mem (by decide) rest)
      simpa only [compactMembers, memberDrafts, List.append_assoc, List.cons_append,
        String.ofList_toList] using members_last bound key.toList read
  | (key, value) :: next :: others =>
      simp only [compactMembers, List.length_append, List.length_cons] at enough
      have read := value_compact faithful value bound
        (',' :: (compactMembers format (next :: others) ++ '\x7d' :: rest)) (by omega)
        (endsNumeral_of_mem (by decide) _)
      have remaining := members_compact faithful (next :: others) bound rest (by simp) (by omega)
      have step := members_cons bound key.toList read
      rw [remaining, String.ofList_toList] at step
      simpa only [compactMembers, memberDrafts, List.append_assoc, List.cons_append] using step

end

end Value

/-- The compact text of a value is read to its end as the draft of the value. -/
theorem ofText_compact (faithful : format.Faithful) (value : Value) :
    Draft.ofText format (value.compact format) = (value.draft format, some []) := by
  have read := Value.value_compact faithful value (2 * (value.compact format).length + 2) []
    (by omega) endsNumeral_nil
  rwa [List.append_nil] at read

/-- Reading a written value is reading its draft. -/
theorem readText_compact {α : Type} (faithful : format.Faithful) (read : Draft → Read α)
    (value : Value) :
    readText format read (String.ofList (value.compact format)) =
      read (value.draft format) := by
  simp only [readText, String.toList_ofList, ofText_compact faithful]
  cases read (value.draft format) <;> rfl

end NodeMaterial.Json
