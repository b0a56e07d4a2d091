import Spvirit.Codec.Prefixed

/-! Frames: the 8-byte header, its length field filled in once the body is written. -/

namespace Spvirit

open ByteOrder

def headerFlags (isServer isBe isControl : Bool) : UInt8 :=
  (if isControl then 0x01 else 0) ||| (if isServer then 0x40 else 0) ||| (if isBe then 0x80 else 0)

def pushHeader (isServer isBe isControl : Bool) (version command : UInt8) (payloadLength : UInt32) : List UInt8 :=
  [0xCA, version, headerFlags isServer isBe isControl, command] ++ toBytes isBe 4 payloadLength.toNat

/-- A server header at the end of `out`, its length field zero, and its offset. -/
def beginFrame (out : List UInt8) (isBe : Bool) (version command : UInt8) : List UInt8 × Nat :=
  (out ++ pushHeader true isBe false version command 0, out.length)

/-- The length goes into the header as a 32-bit number. -/
def finishFrame (out : List UInt8) (headerAt : Nat) (isBe : Bool) : List UInt8 :=
  let len := UInt32.ofNat (out.length - headerAt - 8)
  out.take (headerAt + 4) ++ toBytes isBe 4 len.toNat ++ out.drop (headerAt + 8)

def encodeStatusOk : List UInt8 := [0xFF]

/-- A monitor data response: the body between the header and the empty overrun
bitset behind the values. -/
def monitorDataFrame (ioid : UInt32) (subcmd : UInt8) (update : List UInt8) (version : UInt8) (isBe : Bool) : List UInt8 :=
  let (out, headerAt) := beginFrame [] isBe version 13
  let status := if subcmd &&& 0x10 ≠ 0 then encodeStatusOk else []
  finishFrame (out ++ toBytes isBe 4 ioid.toNat ++ [subcmd] ++ status ++ update ++ pushSize 0 isBe) headerAt isBe

/-- What follows the header of a monitor data response without a status. -/
def monitorPayload (ioid : UInt32) (update : List UInt8) (isBe : Bool) : List UInt8 :=
  toBytes isBe 4 ioid.toNat ++ [0x00] ++ (update ++ pushSize 0 isBe)

theorem pushHeader_length (isServer isBe isControl : Bool) (version command : UInt8) (len : UInt32) :
    (pushHeader isServer isBe isControl version command len).length = 8 := by
  simp [pushHeader]

theorem monitorDataFrame_eq (ioid : UInt32) (update : List UInt8) (version : UInt8) (isBe : Bool) :
    monitorDataFrame ioid 0x00 update version isBe =
      pushHeader true isBe false version 13 (UInt32.ofNat (monitorPayload ioid update isBe).length) ++
        monitorPayload ioid update isBe := by
  have zero : (0x00 : UInt8) &&& 0x10 = 0 := by decide
  have body : (pushHeader true isBe false version 13 0 ++ toBytes isBe 4 ioid.toNat ++ [0x00] ++ [] ++ update ++
      pushSize 0 isBe) = pushHeader true isBe false version 13 0 ++ monitorPayload ioid update isBe := by
    simp [monitorPayload]
  simp only [monitorDataFrame, beginFrame, zero, ne_eq, not_true_eq_false, if_false, List.nil_append, List.length_nil,
    body]
  rw [finishFrame]
  have length : (pushHeader true isBe false version 13 0 ++ monitorPayload ioid update isBe).length - 0 - 8
      = (monitorPayload ioid update isBe).length := by
    rw [List.length_append, pushHeader_length]
    omega
  have behind : (pushHeader true isBe false version 13 0 ++ monitorPayload ioid update isBe).drop (0 + 8)
      = monitorPayload ioid update isBe := List.drop_left' (pushHeader_length _ _ _ _ _ _)
  simp only [length, behind]
  simp [pushHeader]

end Spvirit
