import NodeMaterial.Text.Digest

/-!
# Digests tell texts apart, up to collisions

A digest is written without loss, and so is a text in bytes.  So two different
texts have the same digest only if their bytes collide (`hex_eq_iff`), whatever
the hash is.
-/

namespace NodeMaterial.Text.Digest

theorem digitChar_injective : ∀ first < 16, ∀ second < 16,
    Nat.digitChar first = Nat.digitChar second → first = second := by
  decide

/-- The two digits of a byte determine it. -/
theorem hexByte_injective {first second : UInt8} (same : hexByte first = hexByte second) :
    first = second := by
  simp only [hexByte, List.cons.injEq, and_true] at same
  have fits (byte : UInt8) : byte.toNat < 256 := byte.toNat_lt
  have firstFits := fits first
  have secondFits := fits second
  have high : first.toNat / 16 = second.toNat / 16 :=
    digitChar_injective _ (by omega) _ (by omega) same.1
  have low : first.toNat % 16 = second.toNat % 16 :=
    digitChar_injective _ (by omega) _ (by omega) same.2
  exact UInt8.toNat_inj.1 (by omega)

/-- The digits of bytes determine them: every byte has two. -/
theorem flatMap_hexByte_injective {first second : List UInt8}
    (same : first.flatMap hexByte = second.flatMap hexByte) : first = second := by
  induction first generalizing second with
  | nil =>
      cases second with
      | nil => rfl
      | cons byte bytes => cases same
  | cons byte bytes shorter =>
      cases second with
      | nil => cases same
      | cons other others =>
          obtain ⟨front, back⟩ := List.append_inj same rfl
          rw [hexByte_injective front, shorter back]

theorem hex_inj {first second : List UInt8} : hex first = hex second ↔ first = second := by
  refine ⟨fun same => ?_, fun same => by rw [same]⟩
  exact flatMap_hexByte_injective (String.ofList_injective same)

/-- Two messages that differ and have the same hash. -/
def Collision (hash : List UInt8 → List UInt8) (first second : List UInt8) : Prop :=
  first ≠ second ∧ hash first = hash second

/-- The bytes from a place on are put behind those that have been collected. -/
theorem toList_loop (bytes : ByteArray) (start : Nat) (front : List UInt8) :
    ByteArray.toList.loop bytes start front = front.reverse ++ bytes.data.toList.drop start := by
  fun_induction ByteArray.toList.loop bytes start front with
  | case1 start front within read =>
      have inside : start < bytes.data.toList.length := by simpa using within
      have byte : bytes.get! start = bytes.data.toList[start] := by
        rw [Array.getElem_toList]
        exact getElem!_pos bytes.data start (by simpa using within)
      rw [read, List.drop_eq_getElem_cons inside, byte]
      simp
  | case2 start front beyond =>
      have outside : bytes.data.toList.length ≤ start := by simpa using beyond
      simp [List.drop_eq_nil_of_le outside]

/-- Texts with the same bytes are equal. -/
theorem toUTF8_toList_inj {first second : String} :
    first.toUTF8.toList = second.toUTF8.toList ↔ first = second := by
  refine ⟨fun same => ?_, fun same => by rw [same]⟩
  simp only [ByteArray.toList, toList_loop, List.reverse_nil, List.nil_append,
    List.drop_zero] at same
  exact String.toByteArray_inj.1 (ByteArray.ext (Array.toList_inj.1 same))

/-- Digests of texts agree for equal texts and for collisions only. -/
theorem hex_eq_iff (hash : List UInt8 → List UInt8) {first second : String} :
    hex (hash first.toUTF8.toList) = hex (hash second.toUTF8.toList) ↔
      first = second ∨ Collision hash first.toUTF8.toList second.toUTF8.toList := by
  rw [hex_inj, Collision, Ne, toUTF8_toList_inj]
  constructor
  · intro same
    exact (Decidable.em (first = second)).imp_right fun differ => ⟨differ, same⟩
  · rintro (same | ⟨-, same⟩)
    · rw [same]
    · exact same

end NodeMaterial.Text.Digest
