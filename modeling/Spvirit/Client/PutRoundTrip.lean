import Spvirit.Client.PutBits

/-! The payload of a PUT against the decoder: it comes back as its input gives it just when
the input is carried. -/

namespace Spvirit.Client

open Fallible PvdDecoder

section

variable {ops : JsonOps} {isBe : Bool}

/-- A payload that decodes to what its input gives, to its last byte, had a carried input. -/
theorem round_trips_carried {desc : StructureDesc} {input : Json} {payload : List UInt8}
    {vs : List (String × DecodedValue)} (distinct : DistinctFields desc.fields)
    (accepted : encodePutPayload ops isBe desc input = .ok payload) (given : GivenRoot desc input vs)
    (decoded : ((PvdDecoder.new isBe).decodeStructureWithBitset payload desc (PvdDecoder.new isBe).fresh).1
      = .ok (.structure vs, payload.length)) : CarriedRoot desc input := by
  obtain ⟨root, body, normal, -, encoded, filled, rfl⟩ := encodePutPayload_ok accepted
  obtain ⟨root', normal', given⟩ := given
  obtain rfl : root = root' := Except.ok.inj (normal.symm.trans normal')
  obtain ⟨bytes, fields, encodes⟩ := encodePartialFields_encodes (fun f _ => encodesField f.fieldType) encoded
  obtain ⟨bits, whole⟩ := encodes.bits.bitsAre
  have fits := round_trips_fits distinct encodes given decoded
  have small := encodes.small fits
  have aligned : (subtreeFieldCounts desc.fields).drop 0 = subtreeFieldCounts desc.fields ++ [] := by simp
  have walked := walkFields_walked (fun f _ => walksField f.fieldType) (Nat.zero_le body.data.length) aligned bits fields
    distinct
  have read : Returns ((PvdDecoder.new isBe).decodeStructureWithBitset
      (pushSize body.bitset.length isBe ++ body.bitset ++ body.data) desc) fun r =>
      r = (.structure vs, (pushSize body.bitset.length isBe ++ body.bitset ++ body.data).length) →
        CarriedFields DecodeLimits.default desc.fields root := by
    have split := @decodeStructureWithBitset_bits (PvdDecoder.new isBe) body.data body.bitset desc small filled
    rw [show (PvdDecoder.new isBe).isBe = isBe from rfl] at split
    rw [split]
    refine @Returns.bind _ _ _ _ _ _ (fun r => r = (.structure vs, body.data.length) →
      CarriedFields DecodeLimits.default desc.fields root) _ (returns_scope ?_) fun r carried => ?_
    · rw [bitsetBody, if_neg (by simp [whole])]
      refine walked.bind fun w walked => .pure fun same => ?_
      simp only [Prod.mk.injEq, DecodedValue.structure.injEq] at same
      obtain ⟨rfl, stop⟩ := same
      cases finished : w.finished with
      | false => exact absurd given (walked.stopped finished)
      | true =>
        obtain ⟨-, carry⟩ := walked.reported finished given
        refine carry ?_
        rw [stop, encodes.data, List.nil_append, Nat.zero_add]
    · obtain ⟨value, consumed⟩ := r
      refine .pure fun same => carried ?_
      simp only [Prod.mk.injEq, List.length_append] at same ⊢
      exact ⟨same.1, by omega⟩
  exact ⟨root, normal, read _ _ _ (Prod.ext decoded rfl) rfl, fits⟩

/-- An accepted input comes back from the decoder, leaf by leaf and to the last byte, just
when its encoding carries it. -/
theorem put_payload_round_trips_iff {desc : StructureDesc} {input : Json} {payload : List UInt8}
    (distinct : DistinctFields desc.fields) (accepted : encodePutPayload ops isBe desc input = .ok payload) :
    (∃ vs, GivenRoot desc input vs ∧
      ((PvdDecoder.new isBe).decodeStructureWithBitset payload desc (PvdDecoder.new isBe).fresh).1
        = .ok (.structure vs, payload.length)) ↔ CarriedRoot desc input :=
  ⟨fun ⟨_, given, decoded⟩ => round_trips_carried distinct accepted given decoded, carried_round_trips accepted⟩

end

/-- Operations on texts, for inputs that hold none. -/
def noTexts : JsonOps where
  parseI64 _ := none
  parseU64 _ := none
  parseF64 _ := none
  asF64 _ := ⟨0⟩
  narrow _ := ⟨0⟩
  showF64 _ := ""
  text _ := ""

def switchDesc : StructureDesc :=
  ⟨none, [⟨"on", .scalar .boolean⟩, ⟨"at", .structure ⟨none, [⟨"x", .scalar .int16⟩, ⟨"row", .scalarArray .boolean⟩]⟩⟩]⟩

def switchInput : Json := .object [("on", .bool true), ("at", .object [("row", .array [.bool true, .bool false])])]

theorem put_payload_round_trips_switch :
    let payload := [0x01, 0x12, 0x01, 0x02, 0x01, 0x00]
    encodePutPayload noTexts false switchDesc switchInput = .ok payload ∧ ∃ vs, GivenRoot switchDesc switchInput vs ∧
      ((PvdDecoder.new false).decodeStructureWithBitset payload switchDesc (PvdDecoder.new false).fresh).1
        = .ok (.structure vs, payload.length) := by
  intro payload
  have distinct : DistinctFields switchDesc.fields := by simp [switchDesc, DistinctFields, DistinctType]
  have accepted : encodePutPayload noTexts false switchDesc switchInput = .ok payload := by decide +kernel
  refine ⟨accepted, (put_payload_round_trips_iff distinct accepted).mpr ⟨_, rfl, ?_, fun i flag => ?_⟩⟩
  · simp [switchDesc, CarriedFields, CarriedField, Carried, GivenScalar, DecodeLimits.default, Json.get]
  · have inside : i < 4 := (List.getElem?_eq_some_iff.mp flag).1
    omega

def rowsDesc : StructureDesc := ⟨none, [⟨"rows", .structureArray ⟨none, [⟨"on", .scalar .boolean⟩]⟩⟩]⟩

def rowsInput : Json := .object [("rows", .array [.object [("on", .bool true)]])]

/-- The encoder writes no byte for the presence of an array's structure; the decoder takes
the first byte of the structure for it and reads no field. -/
theorem structure_array_loses_fields :
    encodePutPayload noTexts false rowsDesc rowsInput = .ok [0x01, 0x02, 0x01, 0x01] ∧
      GivenRoot rowsDesc rowsInput [("rows", .array [.structure [("on", .boolean true)]])] ∧
      ¬ ∃ vs, GivenRoot rowsDesc rowsInput vs ∧
        ((PvdDecoder.new false).decodeStructureWithBitset [0x01, 0x02, 0x01, 0x01] rowsDesc
          (PvdDecoder.new false).fresh).1 = .ok (.structure vs, 4) := by
  have accepted : encodePutPayload noTexts false rowsDesc rowsInput = .ok [0x01, 0x02, 0x01, 0x01] := by
    decide +kernel
  refine ⟨accepted, ⟨_, rfl, by simp [rowsDesc, GivenFields, Given, GivenScalar, Json.get]⟩, ?_⟩
  rintro ⟨vs, given, decoded⟩
  have distinct : DistinctFields rowsDesc.fields := by simp [rowsDesc, DistinctFields, DistinctType]
  obtain ⟨root, normal, ⟨carried, -⟩, -⟩ := round_trips_carried distinct accepted given decoded
  cases normal
  have empty := carried _ rfl
  simp [Carried] at empty

end Spvirit.Client
