import Spvirit.Codec.Typing

/-! How few bytes a size or a text can have been read from: those it is written in. -/

namespace Spvirit

variable {isBe : Bool} {data : List UInt8} {size consumed : Nat}

theorem pushSize_length_le (decoded : decodeSizePrefixed data isBe = .ok (size, consumed)) :
    (pushSize size isBe).length ≤ consumed := by
  have short : ∀ n < 254, (pushSize n isBe).length = 1 := fun n small => by simp [pushSize, small]
  have atMost : ∀ n, (pushSize n isBe).length ≤ 5 := fun n => by
    unfold pushSize
    split <;> simp
  cases data with
  | nil => cases decoded
  | cons first tail =>
    simp only [decodeSizePrefixed] at decoded
    split_ifs at decoded with null byte
    · cases decoded
      exact le_of_eq (short 0 (by norm_num))
    · cases decoded
      exact le_of_eq (short _ (UInt8.lt_iff_toNat_lt.mp byte))
    · cases decoded
      exact atMost _

theorem utf8_of_fromUtf8 {s : String} (read : fromUtf8 data = some s) : utf8 s = data := by
  unfold fromUtf8 String.fromUTF8? at read
  split at read
  · cases read
    rfl
  · cases read

theorem pushString_length_le {s : String} (decoded : decodeStringPrefixed data isBe = .ok (s, consumed)) :
    (pushString s isBe).length ≤ consumed := by
  unfold decodeStringPrefixed at decoded
  rcases prefixed : decodeSizePrefixed data isBe with e | ⟨size, sizeBytes⟩
  · rw [prefixed] at decoded
    cases decoded
  · have bytes := pushSize_length_le prefixed
    rw [prefixed] at decoded
    simp only [bind, Except.bind] at decoded
    split_ifs at decoded with empty long
    · cases decoded
      subst empty
      simpa [pushString] using bytes
    · rcases text : fromUtf8 ((data.drop sizeBytes).take size) with _ | t
      · rw [text] at decoded
        cases decoded
      · rw [text] at decoded
        cases decoded
        have length : (utf8 s).length = size := by
          rw [utf8_of_fromUtf8 text, List.length_take, List.length_drop]
          omega
        rw [pushString, List.length_append, length]
        omega

end Spvirit
