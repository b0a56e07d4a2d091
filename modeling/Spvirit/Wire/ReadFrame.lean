import Spvirit.Wire.Frame
import Spvirit.Wire.Packet

/-! A monitor frame taken apart again. -/

namespace Spvirit

open ByteOrder

theorem flags_of_header (isServer isBe isControl : Bool) :
    (PvaControlFlags.new (headerFlags isServer isBe isControl)).isServer = isServer ∧
      (PvaControlFlags.new (headerFlags isServer isBe isControl)).isMsb = isBe ∧
      (PvaControlFlags.new (headerFlags isServer isBe isControl)).isControl = isControl := by
  cases isServer <;> cases isBe <;> cases isControl <;> decide

theorem tryNew_pushHeader (isServer isBe isControl : Bool) (version command : UInt8) (len : UInt32) (rest : List UInt8) :
    PvaHeader.tryNew (pushHeader isServer isBe isControl version command len ++ rest)
      = some ⟨0xCA, version, .new (headerFlags isServer isBe isControl), command, len⟩ := by
  obtain ⟨l0, l1, l2, l3, bytes⟩ : ∃ l0 l1 l2 l3, toBytes isBe 4 len.toNat = [l0, l1, l2, l3] := by
    have length := toBytes_length isBe 4 len.toNat
    generalize toBytes isBe 4 len.toNat = bytes at length
    rcases bytes with _ | ⟨l0, _ | ⟨l1, _ | ⟨l2, _ | ⟨l3, _ | ⟨l4, more⟩⟩⟩⟩⟩ <;> simp at length
    exact ⟨l0, l1, l2, l3, rfl⟩
  have word : ofBytes isBe [l0, l1, l2, l3] = len.toNat := by
    rw [← bytes]
    exact ofBytes_toBytes len.toNat_lt
  simp [pushHeader, bytes, PvaHeader.tryNew, (flags_of_header isServer isBe isControl).2.1, word]

/-- The operation in a monitor data response. -/
def monitorOp (ioid : UInt32) (body : List UInt8) : PvaOpPayload :=
  ⟨0, ioid, 0x00, body, 13, true, none, none, none⟩

theorem new_monitorPayload (ioid : UInt32) (body : List UInt8) (isBe : Bool) :
    PvaOpPayload.new (toBytes isBe 4 ioid.toNat ++ [0x00] ++ body) isBe true 13 = some (monitorOp ioid body) := by
  set raw := toBytes isBe 4 ioid.toNat ++ [0x00] ++ body with split
  have long : ¬ raw.length < 5 := by
    simp only [split, List.length_append, toBytes_length, List.length_singleton]
    omega
  have id : PvaOpPayload.word raw isBe 0 = ioid := by
    have head : raw.take 4 = toBytes isBe 4 ioid.toNat := by
      rw [split, List.append_assoc, List.take_left' (toBytes_length _ _ _)]
    rw [PvaOpPayload.word, List.drop_zero, head, ofBytes_toBytes ioid.toNat_lt, UInt32.ofNat_toNat]
  have subcmd : raw.getD 4 0 = 0x00 := by
    rw [List.getD_eq_getElem?_getD, split, List.append_assoc, List.getElem?_append_right (by simp)]
    simp
  have rest : raw.drop 5 = body := List.drop_left' (by simp)
  have header : PvaOpPayload.opHeader raw isBe true = some (0, ioid, 0x00, 5) := by
    rw [PvaOpPayload.opHeader, if_pos rfl, if_neg long, id, subcmd]
  have noStatus : PvaOpPayload.hasStatus true 0x00 13 = false := by decide
  rw [PvaOpPayload.new, if_neg long, header]
  simp [rest, noStatus, monitorOp]

/-- The header keeps the payload's length modulo `2 ^ 32`, and the frame is read up to that length. -/
theorem decodePayload_monitorDataFrame (ioid : UInt32) (update : List UInt8) (version : UInt8) (isBe : Bool) :
    ∃ packet, PvaPacket.tryNew (monitorDataFrame ioid 0x00 update version isBe) = some packet ∧
      packet.decodePayload =
        match PvaOpPayload.new ((monitorPayload ioid update isBe).take ((monitorPayload ioid update isBe).length % 2 ^ 32))
          isBe true 13 with
        | some op => some (.op op)
        | none => some (.other 13
            ((monitorPayload ioid update isBe).take ((monitorPayload ioid update isBe).length % 2 ^ 32))) := by
  obtain ⟨isServer, isMsb, isControl⟩ := flags_of_header true isBe false
  set payload := monitorPayload ioid update isBe with whole
  have len : (UInt32.ofNat payload.length).toNat = payload.length % 2 ^ 32 := UInt32.toNat_ofNat'
  have short : payload.length % 2 ^ 32 ≤ payload.length := Nat.mod_le _ _
  have header := pushHeader_length true isBe false version 13 (UInt32.ofNat payload.length)
  rw [monitorDataFrame_eq]
  refine ⟨_, by rw [PvaPacket.tryNew, tryNew_pushHeader]; rfl, ?_⟩
  have slice : ((pushHeader true isBe false version 13 (UInt32.ofNat payload.length) ++ payload).take
      (8 + payload.length % 2 ^ 32)).drop 8 = payload.take (payload.length % 2 ^ 32) := by
    rw [← header, List.take_length_add_append, List.drop_left]
  have isOp : isOpCommand 13 = true := by decide
  simp only [PvaPacket.decodePayload, ← whole, isControl, len, List.length_append, header, Bool.false_eq_true, if_false,
    slice, isOp, if_true, isServer, isMsb]
  refine (if_neg (by omega)).trans ((if_neg (by omega)).trans ?_)
  cases PvaOpPayload.new (payload.take (payload.length % 2 ^ 32)) isBe true 13 <;> rfl

theorem decodePayload_monitorDataFrame_fits {ioid : UInt32} {update : List UInt8} {version : UInt8} {isBe : Bool}
    (fits : (monitorPayload ioid update isBe).length < 2 ^ 32) :
    ∃ packet, PvaPacket.tryNew (monitorDataFrame ioid 0x00 update version isBe) = some packet ∧
      packet.decodePayload = some (.op (monitorOp ioid (update ++ pushSize 0 isBe))) := by
  obtain ⟨packet, parsed, decoded⟩ := decodePayload_monitorDataFrame ioid update version isBe
  rw [Nat.mod_eq_of_lt fits, List.take_length, monitorPayload, new_monitorPayload] at decoded
  exact ⟨packet, parsed, decoded⟩

/-- Whatever its length, a frame taken apart as an operation has a body shorter than `2 ^ 32` bytes. -/
theorem op_of_monitorDataFrame {ioid : UInt32} {update : List UInt8} {version : UInt8} {isBe : Bool} {packet : PvaPacket}
    {op : PvaOpPayload} (parsed : PvaPacket.tryNew (monitorDataFrame ioid 0x00 update version isBe) = some packet)
    (decoded : packet.decodePayload = some (.op op)) : ∃ body, op = monitorOp ioid body ∧ body.length + 5 < 2 ^ 32 := by
  obtain ⟨_, parsed', decoded'⟩ := decodePayload_monitorDataFrame ioid update version isBe
  cases parsed'.symm.trans parsed
  have bound := Nat.mod_lt (monitorPayload ioid update isBe).length (Nat.two_pow_pos 32)
  set len := (monitorPayload ioid update isBe).length % 2 ^ 32 with cut
  rcases Nat.lt_or_ge len 5 with tiny | enough
  · have none : PvaOpPayload.new ((monitorPayload ioid update isBe).take len) isBe true 13 = none := by
      rw [PvaOpPayload.new, if_pos (by rw [List.length_take]; omega)]
    rw [decoded', none] at decoded
    cases decoded
  · have pieces : (monitorPayload ioid update isBe).take len
        = toBytes isBe 4 ioid.toNat ++ [0x00] ++ (update ++ pushSize 0 isBe).take (len - 5) := by
      have header : (toBytes isBe 4 ioid.toNat ++ [0x00]).length = 5 := by simp
      rw [monitorPayload, List.take_append, header, List.take_of_length_le (by omega)]
    rw [decoded', pieces, new_monitorPayload] at decoded
    cases decoded
    refine ⟨_, rfl, ?_⟩
    rw [List.length_take]
    omega

end Spvirit
