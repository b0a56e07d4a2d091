import Spvirit.Codec.Extent
import Spvirit.Payload.NdArrayBytes
import Spvirit.Wire.ReadFrame

/-! Monitor data frames of whole payloads. -/

namespace Spvirit

open PvdDecoder

def encodeMonitorDataResponsePayload (clock : Int64 × Int32) (ioid : UInt32) (subcmd : UInt8) (p : NtPayload)
    (version : UInt8) (isBe : Bool) : List UInt8 :=
  monitorDataFrame ioid subcmd (pushNtPayloadBitset clock isBe p) version isBe

/-- The frame is taken apart as an operation whose body, decoded against the
descriptor, leaves no byte unread and gives `v`. -/
def DecodesTo (frame : List UInt8) (desc : StructureDesc) (isBe : Bool) (v : DecodedValue) : Prop :=
  ∃ packet op op' update, PvaPacket.tryNew frame = some packet ∧ packet.decodePayload = some (.op op) ∧
    op.decodeWithFieldDesc desc isBe = .ok op' ∧ op'.decodedValue = some v ∧
    ((new isBe).decodeMonitorUpdate op.body desc (new isBe).fresh).1 = .ok update ∧ update.consumed = op.body.length

variable {isBe : Bool} {desc : StructureDesc} {ioid : UInt32} {version : UInt8}

theorem decodesTo_of_marked {flags : List Bool} {vs : List (String × DecodedValue)} {changed values : List UInt8} {n : Nat}
    (marked : Marked (new isBe) desc.fields flags vs values n) (bits : BitsAre changed 1 flags)
    (choice : bitAt changed 0 = false ∨ hasFieldBits changed = true ∨ desc.fields = [])
    (budget : n ≤ nodeCeiling DecodeLimits.default.maxStructFields (values.length + 1))
    (fits : (monitorDataFrame ioid 0x00 (pushSize changed.length isBe ++ changed ++ values) version isBe).length
      < 2 ^ 32 + 8) :
    DecodesTo (monitorDataFrame ioid 0x00 (pushSize changed.length isBe ++ changed ++ values) version isBe) desc isBe
      (.structure vs) := by
  rw [monitorDataFrame_eq, List.length_append, pushHeader_length] at fits
  have payload : (monitorPayload ioid (pushSize changed.length isBe ++ changed ++ values) isBe).length < 2 ^ 32 := by
    omega
  have small : changed.length < 2 ^ 32 := by
    simp only [monitorPayload, List.length_append] at payload
    omega
  obtain ⟨packet, parsed, op⟩ := @decodePayload_monitorDataFrame_fits _ _ version _ payload
  have update := marked.decodeMonitorUpdate bits small choice budget
  have nonempty : ¬ (pushSize changed.length isBe ++ changed ++ values ++ pushSize 0 isBe).isEmpty := by
    simp [List.length_pos_iff.mp (@pushSize_length_pos 0 isBe)]
  have decoded : (monitorOp ioid (pushSize changed.length isBe ++ changed ++ values ++ pushSize 0 isBe)).decodeWithFieldDesc
      desc isBe = .ok { monitorOp ioid (pushSize changed.length isBe ++ changed ++ values ++ pushSize 0 isBe) with
        decodedValue := some (.structure vs) } := by
    rw [PvaOpPayload.decodeWithFieldDesc, monitorOp, if_neg nonempty]
    have run : ((new isBe).decodeMonitorUpdate (pushSize changed.length isBe ++ changed ++ values ++ pushSize 0 isBe) desc
      (new isBe).fresh).1 = _ := update
    simp only [run]
    rfl
  exact ⟨packet, _, _, _, parsed, op, decoded, rfl, update, rfl⟩

/-- A frame that decodes has the value's update in its body, which is shorter than
`2 ^ 32` bytes whatever the header says about its length. -/
theorem DecodesTo.update {update : List UInt8} {v : DecodedValue}
    (decodes : DecodesTo (monitorDataFrame ioid 0x00 update version isBe) desc isBe v) :
    ∃ body result, body.length + 5 < 2 ^ 32 ∧
      ((new isBe).decodeMonitorUpdate body desc (new isBe).fresh).1 = .ok result ∧ result.value = v := by
  obtain ⟨packet, op, op', result, parsed, decoded, typed, value, updated, -⟩ := decodes
  obtain ⟨body, rfl, length⟩ := op_of_monitorDataFrame parsed decoded
  refine ⟨body, result, length, updated, ?_⟩
  rw [PvaOpPayload.decodeWithFieldDesc] at typed
  split_ifs at typed with empty data monitor
  · cases typed
    cases value
  · have run : ((new isBe).decodeMonitorUpdate (monitorOp ioid body).body desc (new isBe).fresh).1 = .ok result := updated
    simp only [run] at typed
    cases typed
    exact Option.some.inj value
  · exact (monitor rfl).elim
  · exact (data (Or.inl rfl)).elim

theorem hasFieldBits_allOnes (fs : List FieldDesc) : hasFieldBits (allOnes (1 + countFields fs)) = true ∨ fs = [] := by
  cases fs with
  | nil => exact Or.inr rfl
  | cons f fs =>
    have bits := bitsAre_allOnes (countFields (f :: fs))
    have some : List.replicate (countFields (f :: fs)) true
        = true :: List.replicate (countNested f.fieldType + countFields fs) true := by
      rw [countFields, Nat.add_assoc, Nat.add_comm, List.replicate_succ]
    rw [some] at bits
    exact Or.inl (hasFieldBits_of_bitAt bits.1 (le_refl 1))

theorem decodesTo_allOnes {vs : List (String × DecodedValue)} {values : List UInt8} {n : Nat}
    (marked : Marked (new isBe) desc.fields (List.replicate (countFields desc.fields) true) vs values n)
    (budget : n ≤ nodeCeiling DecodeLimits.default.maxStructFields (values.length + 1))
    (fits : (monitorDataFrame ioid 0x00 (pushAllOnesBitset (1 + countStructureFields desc) isBe ++ values) version
      isBe).length < 2 ^ 32 + 8) :
    DecodesTo (monitorDataFrame ioid 0x00 (pushAllOnesBitset (1 + countStructureFields desc) isBe ++ values) version isBe)
      desc isBe (.structure vs) :=
  decodesTo_of_marked marked (bitsAre_allOnes _) (Or.inr (hasFieldBits_allOnes desc.fields)) budget fits

end Spvirit
