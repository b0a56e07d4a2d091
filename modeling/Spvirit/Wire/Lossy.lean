import Spvirit.Wire.Packet

/-! What is UTF-8 is read as it is by the lenient string reader of the framing layer. -/

namespace Spvirit

theorem toNat_byte {n : Nat} (small : n < 256) : (UInt8.ofNat n).toNat = n := by
  rw [UInt8.toNat_ofNat']
  exact Nat.mod_eq_of_lt small

section

variable {v : Nat} (rest : List UInt8)

theorem utf8Head_one (small : v ≤ 127) : utf8Head (UInt8.ofNat v :: rest) = (1, some v) := by
  have value := @toNat_byte v (by omega)
  simp only [utf8Head, UInt8.lt_iff_toNat_lt, value, UInt8.reduceToNat]
  rw [if_pos (by omega)]

theorem utf8Head_two (big : 127 < v) (small : v ≤ 2047) :
    utf8Head (UInt8.ofNat (v / 64 % 32 + 192) :: UInt8.ofNat (v % 64 + 128) :: rest) = (2, some v) := by
  have v0 := @toNat_byte (v / 64 % 32 + 192) (by omega)
  have v1 := @toNat_byte (v % 64 + 128) (by omega)
  simp only [utf8Head, UInt8.lt_iff_toNat_lt, UInt8.le_iff_toNat_le, v0, v1, UInt8.reduceToNat, Bool.and_eq_true,
    decide_eq_true_eq]
  rw [if_neg (by omega), if_pos (by omega), if_pos (by omega)]
  simp only [Prod.mk.injEq, Option.some.injEq, true_and]
  omega

/-- The second byte excludes the surrogates and what two bytes could have said. -/
theorem utf8Head_three (big : 2047 < v) (small : v ≤ 65535) (scalar : v < 0xD800 ∨ 0xDFFF < v) :
    utf8Head (UInt8.ofNat (v / 4096 % 16 + 224) :: UInt8.ofNat (v / 64 % 64 + 128) :: UInt8.ofNat (v % 64 + 128) ::
      rest) = (3, some v) := by
  have v0 := @toNat_byte (v / 4096 % 16 + 224) (by omega)
  have v1 := @toNat_byte (v / 64 % 64 + 128) (by omega)
  have v2 := @toNat_byte (v % 64 + 128) (by omega)
  simp only [utf8Head, UInt8.lt_iff_toNat_lt, UInt8.le_iff_toNat_le, ← UInt8.toNat_inj, v0, v1, v2,
    UInt8.reduceToNat, Bool.and_eq_true, decide_eq_true_eq]
  rw [if_neg (by omega), if_neg (by omega), if_pos (by omega), if_neg, if_pos (by omega)]
  · simp only [Prod.mk.injEq, Option.some.injEq, true_and]
    omega
  · simp only [Bool.not_eq_true', Bool.not_eq_false]
    split_ifs <;> simp only [Bool.and_eq_true, decide_eq_true_eq] <;> omega

theorem utf8Head_four (big : 65535 < v) (small : v < 0x110000) :
    utf8Head (UInt8.ofNat (v / 262144 % 8 + 240) :: UInt8.ofNat (v / 4096 % 64 + 128) ::
      UInt8.ofNat (v / 64 % 64 + 128) :: UInt8.ofNat (v % 64 + 128) :: rest) = (4, some v) := by
  have v0 := @toNat_byte (v / 262144 % 8 + 240) (by omega)
  have v1 := @toNat_byte (v / 4096 % 64 + 128) (by omega)
  have v2 := @toNat_byte (v / 64 % 64 + 128) (by omega)
  have v3 := @toNat_byte (v % 64 + 128) (by omega)
  simp only [utf8Head, UInt8.lt_iff_toNat_lt, UInt8.le_iff_toNat_le, ← UInt8.toNat_inj, v0, v1, v2, v3,
    UInt8.reduceToNat, Bool.and_eq_true, decide_eq_true_eq]
  rw [if_neg (by omega), if_neg (by omega), if_neg (by omega), if_pos (by omega), if_neg, if_neg, if_pos (by omega)]
  · simp only [Prod.mk.injEq, Option.some.injEq, true_and]
    omega
  · simp only [Bool.not_eq_true', Bool.not_eq_false, Bool.and_eq_true, decide_eq_true_eq]
    omega
  · simp only [Bool.not_eq_true', Bool.not_eq_false]
    split_ifs <;> simp only [Bool.and_eq_true, decide_eq_true_eq] <;> omega

end

/-- The bytes of a character are taken off together. -/
theorem utf8Head_encodeChar (c : Char) (rest : List UInt8) :
    utf8Head (String.utf8EncodeChar c ++ rest) = ((String.utf8EncodeChar c).length, some c.toNat) := by
  have scalar : c.val.toNat < 0xD800 ∨ 0xDFFF < c.val.toNat ∧ c.val.toNat < 0x110000 := c.valid
  unfold String.utf8EncodeChar
  dsimp only
  split_ifs with one two three
  · exact utf8Head_one rest one
  · exact utf8Head_two rest (by omega) two
  · exact utf8Head_three rest (by omega) three (by omega)
  · exact utf8Head_four rest (by omega) (by omega)

theorem utf8EncodeChar_ne_nil (c : Char) : String.utf8EncodeChar c ≠ [] := by
  unfold String.utf8EncodeChar
  dsimp only
  split_ifs <;> simp

theorem utf8Chars_encode (chars : List Char) (fuel : Nat) (enough : chars.length ≤ fuel) :
    utf8Chars fuel (chars.flatMap String.utf8EncodeChar) = chars := by
  induction chars generalizing fuel with
  | nil => cases fuel <;> rfl
  | cons c rest ih =>
    obtain ⟨fuel, rfl⟩ : ∃ n, fuel = n + 1 := ⟨fuel - 1, by simp only [List.length_cons] at enough; omega⟩
    have head := utf8Head_encodeChar c (rest.flatMap String.utf8EncodeChar)
    have present : String.utf8EncodeChar c ++ rest.flatMap String.utf8EncodeChar ≠ [] := by simp
    rw [List.flatMap_cons]
    obtain ⟨b, bytes, whole⟩ := List.exists_cons_of_ne_nil present
    rw [whole] at head ⊢
    simp only [utf8Chars, head, Option.getD_some, Char.ofNat_toNat]
    rw [← whole, List.drop_left, ih fuel (by simpa using enough)]

theorem utf8_eq_flatMap (s : String) : utf8 s = s.toList.flatMap String.utf8EncodeChar := by
  have bytes : s.toByteArray = s.toList.utf8Encode := String.utf8Encode_toList.symm
  rw [utf8, String.toUTF8, bytes, List.utf8Encode]
  simp

theorem utf8_replicate (n : Nat) : (utf8 (String.ofList (List.replicate n 'a'))).length = n := by
  have one : Char.utf8Size 'a' = 1 := by decide
  rw [utf8_eq_flatMap, String.toList_ofList]
  simp [List.length_flatMap, one]

theorem length_le_flatMap_encode (chars : List Char) : chars.length ≤ (chars.flatMap String.utf8EncodeChar).length := by
  induction chars with
  | nil => exact Nat.zero_le _
  | cons c rest ih =>
    have present := List.length_pos_iff.mpr (utf8EncodeChar_ne_nil c)
    rw [List.flatMap_cons, List.length_append, List.length_cons]
    omega

@[simp] theorem fromUtf8Lossy_utf8 (s : String) : fromUtf8Lossy (utf8 s) = s := by
  rw [fromUtf8Lossy, utf8_eq_flatMap, utf8Chars_encode _ _ (length_le_flatMap_encode _), String.ofList_toList]

theorem decodeStringLossy_pushString {s : String} {isBe : Bool} (small : (utf8 s).length < 2 ^ 32) (rest : List UInt8) :
    decodeStringLossy (pushString s isBe ++ rest) isBe = some (s, (pushString s isBe).length) := by
  have size : decodeSizePrefixed (pushString s isBe ++ rest) isBe
      = .ok ((utf8 s).length, (pushSize (utf8 s).length isBe).length) := by
    rw [pushString, List.append_assoc]
    exact decodeSizePrefixed_pushSize small
  rw [decodeStringLossy, size]
  dsimp only
  split_ifs with empty short
  · obtain rfl := utf8_eq_nil.mp (List.length_eq_zero_iff.mp empty)
    simp [pushString]
  · simp only [pushString, List.length_append] at short
    omega
  · have body : ((pushString s isBe ++ rest).drop (pushSize (utf8 s).length isBe).length).take (utf8 s).length
        = utf8 s := by
      simp [pushString]
    rw [body, fromUtf8Lossy_utf8, pushString, List.length_append]

/-- The prefix of a string of `2 ^ 32` bytes says none. -/
theorem decodeStringLossy_long {s : String} {isBe : Bool} (long : (utf8 s).length = 2 ^ 32) (rest : List UInt8) :
    decodeStringLossy (pushString s isBe ++ rest) isBe = some ("", 5) := by
  have bytes : pushSize (2 ^ 32) isBe = [0xFE, 0, 0, 0, 0] := by cases isBe <;> decide
  have size : ∀ more, decodeSizePrefixed ([0xFE, 0, 0, 0, 0] ++ more) isBe = .ok (0, 5) := by
    intro more
    have zero : ByteOrder.ofBytes isBe [0, 0, 0, 0] = 0 := by cases isBe <;> decide
    have enough : ¬ (0xFE :: 0 :: 0 :: 0 :: 0 :: more).length < 5 := by simp
    have tag : ¬ (0xFE : UInt8) = 0xFF ∧ ¬ (0xFE : UInt8) < 254 := by decide
    simp only [List.cons_append, List.nil_append, decodeSizePrefixed]
    rw [if_neg tag.1, if_neg tag.2, if_neg enough]
    exact congrArg (fun size => Except.ok (size, 5)) zero
  rw [pushString, long, bytes, List.append_assoc, decodeStringLossy, size]
  rfl

end Spvirit
