import Spvirit.Codec.Error
import Spvirit.Foundation.ByteOrder

/-! Size prefixes and size-prefixed strings. -/

namespace Spvirit

open ByteOrder

def utf8 (s : String) : List UInt8 := s.toUTF8.data.toList

def fromUtf8 (bytes : List UInt8) : Option String := String.fromUTF8? ⟨bytes.toArray⟩

/-- The byte `0xFF` is the null marker, read as size 0; `0xFE` introduces a four-byte size. -/
def decodeSizePrefixed (data : List UInt8) (isBe : Bool) : Except DecodeError (Nat × Nat) :=
  match data with
  | [] => .error (.truncated 1 0)
  | first :: rest =>
    if first = 0xFF then .ok (0, 1)
    else if first < 254 then .ok (first.toNat, 1)
    else if data.length < 5 then .error (.truncated 5 data.length)
    else .ok (ofBytes isBe (rest.take 4), 5)

/-- A string of a structured value: bytes that are not UTF-8 are an error. -/
def decodeStringPrefixed (data : List UInt8) (isBe : Bool) : Except DecodeError (String × Nat) := do
  let (size, sizeBytes) ← decodeSizePrefixed data isBe
  if size = 0 then .ok ("", sizeBytes)
  else if data.length < sizeBytes + size then .error (.truncated (sizeBytes + size) data.length)
  else
    match fromUtf8 ((data.drop sizeBytes).take size) with
    | none => .error (.malformed "string is not valid UTF-8")
    | some s => .ok (s, sizeBytes + size)

def pushSize (size : Nat) (isBe : Bool) : List UInt8 :=
  if size < 254 then [UInt8.ofNat size] else 0xFE :: toBytes isBe 4 (size % 2 ^ 32)

def pushString (value : String) (isBe : Bool) : List UInt8 := pushSize (utf8 value).length isBe ++ utf8 value

@[simp] theorem fromUtf8_utf8 (s : String) : fromUtf8 (utf8 s) = some s := by
  have valid : (⟨(utf8 s).toArray⟩ : ByteArray) = s.toByteArray := rfl
  rw [fromUtf8, valid, String.fromUTF8?, dif_pos s.isValidUTF8]
  rfl

theorem utf8_injective : Function.Injective utf8 := fun s t same => by
  have read := fromUtf8_utf8 s
  rw [same, fromUtf8_utf8] at read
  exact (Option.some.inj read).symm

@[simp] theorem utf8_empty : utf8 "" = [] := rfl

theorem utf8_eq_nil {s : String} : utf8 s = [] ↔ s = "" :=
  ⟨fun empty => utf8_injective (by rw [empty, utf8_empty]), fun empty => by rw [empty, utf8_empty]⟩

section

variable {size consumed : Nat} {isBe : Bool} {data rest : List UInt8}

theorem pushSize_length_pos : 0 < (pushSize size isBe).length := by
  unfold pushSize
  split <;> simp

theorem decodeSizePrefixed_pushSize (small : size < 2 ^ 32) :
    decodeSizePrefixed (pushSize size isBe ++ rest) isBe = .ok (size, (pushSize size isBe).length) := by
  unfold pushSize
  split
  case isTrue short =>
    have value : (UInt8.ofNat size).toNat = size := by
      rw [UInt8.toNat_ofNat']
      exact Nat.mod_eq_of_lt (by omega)
    have notNull : UInt8.ofNat size ≠ 0xFF := fun same => by
      have := congrArg UInt8.toNat same
      rw [value] at this
      simp at this
      omega
    have below : UInt8.ofNat size < 254 := by
      rw [UInt8.lt_iff_toNat_lt, value]
      exact short
    simp [decodeSizePrefixed, notNull, below, value]
  case isFalse long =>
    have fits : size % 2 ^ 32 < 256 ^ 4 := Nat.mod_lt _ (by norm_num)
    have read : ofBytes isBe ((toBytes isBe 4 (size % 2 ^ 32) ++ rest).take 4) = size := by
      rw [List.take_left' (toBytes_length isBe 4 _), ofBytes_toBytes fits, Nat.mod_eq_of_lt small]
    have enough : ¬ (0xFE :: (toBytes isBe 4 (size % 2 ^ 32) ++ rest)).length < 5 := by simp
    have tag : ¬ (0xFE : UInt8) = 0xFF ∧ ¬ (0xFE : UInt8) < 254 := by decide
    rw [List.cons_append, decodeSizePrefixed, if_neg tag.1, if_neg tag.2, if_neg enough, read, List.length_cons,
      toBytes_length]

theorem decodeSizePrefixed_lt (decoded : decodeSizePrefixed data isBe = .ok (size, consumed)) : size < 2 ^ 32 := by
  cases data with
  | nil => simp [decodeSizePrefixed] at decoded
  | cons first tail =>
    have byte := first.toNat_lt
    have word := ofBytes_lt isBe (tail.take 4)
    simp only [decodeSizePrefixed] at decoded
    split_ifs at decoded
    · simp only [Except.ok.injEq, Prod.mk.injEq] at decoded
      omega
    · simp only [Except.ok.injEq, Prod.mk.injEq] at decoded
      omega
    · simp only [Except.ok.injEq, Prod.mk.injEq] at decoded
      have : 256 ^ (tail.take 4).length ≤ 256 ^ 4 := Nat.pow_le_pow_right (by norm_num) (List.length_take_le _ _)
      omega

theorem decodeStringPrefixed_pushString {s : String} (small : (utf8 s).length < 2 ^ 32) :
    decodeStringPrefixed (pushString s isBe ++ rest) isBe = .ok (s, (pushString s isBe).length) := by
  have read : decodeSizePrefixed (pushString s isBe ++ rest) isBe
      = .ok ((utf8 s).length, (pushSize (utf8 s).length isBe).length) := by
    rw [pushString, List.append_assoc]
    exact decodeSizePrefixed_pushSize small
  rw [decodeStringPrefixed, read]
  simp only [bind, Except.bind]
  by_cases empty : s = ""
  · subst empty
    simp [pushString]
  · have nonzero : (utf8 s).length ≠ 0 := by simpa [utf8_eq_nil] using empty
    have body : ((pushString s isBe ++ rest).drop (pushSize (utf8 s).length isBe).length).take (utf8 s).length = utf8 s := by
      simp [pushString]
    have long : ¬ (pushString s isBe ++ rest).length < (pushSize (utf8 s).length isBe).length + (utf8 s).length := by
      simp [pushString]
    rw [if_neg nonzero, if_neg long, body, fromUtf8_utf8]
    simp [pushString]

end

end Spvirit
