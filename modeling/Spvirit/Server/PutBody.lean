import Spvirit.Codec.EncodeBits
import Spvirit.Codec.Selected

/-! The body of a client's PUT, for which the decoder tries the encodings of several clients. -/

namespace Spvirit.Server

open Fallible PvdDecoder

/-- The bits move up, and the bytes grow to hold them. -/
def shiftBitsetLeft (bitset : List UInt8) (shift : Nat) : List UInt8 :=
  if shift = 0 then bitset
  else
    let totalBits := bitset.length * 8
    (List.range totalBits).foldl (fun out bit => if bitAt bitset bit then setBit out (bit + shift) else out)
      (List.replicate ((totalBits + shift + 7) / 8) 0)

def decodedIsEmpty : DecodedValue → Bool
  | .structure [] => true
  | _ => false

/-- A decoding that fails counts as no result, and so does an empty structure. -/
def orNothing (m : DecodeM (DecodedValue × Nat)) : DecodeM (Option DecodedValue) := do
  match ← attempt (fun _ => false) m with
  | some (value, _) => pure (if decodedIsEmpty value then none else some value)
  | none => pure none

/-- The second strategy is only tried if the first gives nothing. -/
def orElse (first second : DecodeM (Option DecodedValue)) : DecodeM (Option DecodedValue) := do
  match ← first with
  | some value => pure (some value)
  | none => second

/-- A fall-back makes a decoder of its own. -/
def withNewDecoder (isBe : Bool) (m : DecodeM (Option DecodedValue)) : DecodeM (Option DecodedValue) :=
  fun cells => ((m (PvdDecoder.new isBe).fresh).1, cells)

section

variable (isBe : Bool) (body : List UInt8) (desc : StructureDesc)

/-- The body with its bitset moved up by one. -/
def shiftedBody (size consumed : Nat) : List UInt8 :=
  let shifted := shiftBitsetLeft ((body.drop consumed).take size) 1
  pushSize shifted.length isBe ++ shifted ++ body.drop (consumed + size)

def decodePutBodyShiftedBitset : DecodeM (Option DecodedValue) :=
  match decodeSizePrefixed body isBe with
  | .error _ => pure none
  | .ok (size, consumed) =>
    if size = 0 ∨ body.length < consumed + size then pure none
    else orNothing ((PvdDecoder.new isBe).decodeStructureWithBitset (shiftedBody isBe body size consumed) desc)

def decodeValueOnlyFromData (data : List UInt8) : DecodeM (Option DecodedValue) :=
  match desc.fields.find? fun f => f.name = "value" with
  | none => pure none
  | some field => do
    match ← attempt (fun _ => false) ((PvdDecoder.new isBe).decodeValue data field.fieldType) with
    | some (value, _) => pure (some (.structure [("value", value)]))
    | none => pure none

/-- What stands behind a complete bitset is tried first, then the whole body. -/
def decodePutBodyValueOnly : DecodeM (Option DecodedValue) :=
  match decodeSizePrefixed body isBe with
  | .error _ => decodeValueOnlyFromData isBe desc body
  | .ok (size, consumed) =>
    if consumed + size ≤ body.length then
      orElse (decodeValueOnlyFromData isBe desc (body.drop (consumed + size))) (decodeValueOnlyFromData isBe desc body)
    else decodeValueOnlyFromData isBe desc body

def decodePutBodyBehindStatus : DecodeM (Option DecodedValue) :=
  match body with
  | 0xFF :: rest => orNothing ((PvdDecoder.new isBe).decodeStructureWithBitset rest desc)
  | _ => pure none

/-- The strategies in their order. -/
def putStrategies : DecodeM (Option DecodedValue) :=
  orElse (orNothing ((PvdDecoder.new isBe).decodeStructureWithBitset body desc)) <|
    orElse (decodePutBodyBehindStatus isBe body desc) <|
      orElse (withNewDecoder isBe (decodePutBodyShiftedBitset isBe body desc))
        (withNewDecoder isBe (decodePutBodyValueOnly isBe body desc))

def decodePutBody : Option DecodedValue :=
  match (putStrategies isBe body desc (PvdDecoder.new isBe).fresh).1 with
  | .ok result => result
  | .error _ => none

end

def putBitset (isBe : Bool) (body : List UInt8) : Option (List UInt8) :=
  match decodeSizePrefixed body isBe with
  | .ok (size, consumed) => if body.length < consumed + size then none else some ((body.drop consumed).take size)
  | .error _ => none

def SelectedShifted (bitset : List UInt8) (desc : StructureDesc) (fields : List (String × DecodedValue)) : Prop :=
  SelectedFields (fun n => decide (0 < n) && bitAt bitset (n - 1)) false desc.fields 1 fields

theorem bitAt_beyond {bitset : List UInt8} {n : Nat} (beyond : bitset.length * 8 ≤ n) : bitAt bitset n = false := by
  have past : bitset.length ≤ n / 8 := by omega
  unfold bitAt
  rw [List.getElem?_eq_none past]

theorem shift_loop (bitset out : List UInt8) (shift count n : Nat)
    (room : ∀ bit, bit < count → (bit + shift) / 8 < out.length) :
    ((List.range count).foldl (fun out bit => if bitAt bitset bit then setBit out (bit + shift) else out) out).length =
        out.length ∧
      bitAt ((List.range count).foldl
        (fun out bit => if bitAt bitset bit then setBit out (bit + shift) else out) out) n =
        (bitAt out n || (decide (shift ≤ n ∧ n - shift < count) && bitAt bitset (n - shift))) := by
  induction count with
  | zero => simp
  | succ count ih =>
    obtain ⟨length, bits⟩ := ih fun bit less => room bit (by omega)
    rw [List.range_succ, List.foldl_append]
    simp only [List.foldl_cons, List.foldl_nil]
    have here := room count (Nat.lt_succ_self count)
    have next (apart : count + shift ≠ n) : (shift ≤ n ∧ n - shift < count + 1) ↔ (shift ≤ n ∧ n - shift < count) := by
      omega
    split_ifs with set
    · refine ⟨by rw [setBit_length, length], ?_⟩
      rw [bitAt_setBit (by rw [length]; exact here), bits]
      by_cases same : count + shift = n
      · simp [← same, set]
      · rw [decide_eq_decide.mpr (next same), decide_eq_false same, Bool.or_false]
    · refine ⟨length, ?_⟩
      rw [bits]
      by_cases same : count + shift = n
      · simp [← same, set]
      · rw [decide_eq_decide.mpr (next same)]

theorem shiftBitsetLeft_spec (bitset : List UInt8) (n : Nat) :
    (shiftBitsetLeft bitset 1).length = bitset.length + 1 ∧
      bitAt (shiftBitsetLeft bitset 1) n = (decide (0 < n) && bitAt bitset (n - 1)) := by
  have room : ∀ bit, bit < bitset.length * 8 →
      (bit + 1) / 8 < (List.replicate ((bitset.length * 8 + 1 + 7) / 8) (0 : UInt8)).length := by
    intro bit less
    rw [List.length_replicate]
    omega
  obtain ⟨length, bits⟩ := shift_loop bitset _ 1 (bitset.length * 8) n room
  unfold shiftBitsetLeft
  rw [if_neg (by decide)]
  refine ⟨?_, ?_⟩
  · dsimp only
    rw [length, List.length_replicate]
    omega
  · dsimp only
    rw [bits, bitAt_replicate_zero, Bool.false_or]
    by_cases inside : n - 1 < bitset.length * 8
    · simp [inside, Nat.succ_le_iff]
    · simp [bitAt_beyond (Nat.le_of_not_lt inside)]

theorem selectedBy_shift (bitset : List UInt8) (desc : StructureDesc) (fields : List (String × DecodedValue)) :
    SelectedBy (shiftBitsetLeft bitset 1) desc fields ↔ SelectedShifted bitset desc fields := by
  have bits : bitAt (shiftBitsetLeft bitset 1) = fun n => decide (0 < n) && bitAt bitset (n - 1) :=
    funext fun n => (shiftBitsetLeft_spec bitset n).2
  rw [SelectedBy, bits]
  exact Iff.rfl

section

variable {isBe : Bool} {body : List UInt8} {desc : StructureDesc}

/-- What is decoded against a bitset is empty, or selected by the complete bitset in front. -/
theorem decodeStructureWithBitset_selected (isBe : Bool) (body : List UInt8) (desc : StructureDesc) :
    Returns ((PvdDecoder.new isBe).decodeStructureWithBitset body desc) fun r =>
      ∃ fields, r.1 = .structure fields ∧
        (fields = [] ∨ ∃ bits, putBitset isBe body = some bits ∧ bits ≠ [] ∧ SelectedBy bits desc fields) := by
  unfold decodeStructureWithBitset
  split_ifs
  · exact .throw
  · refine .bindExcept fun size sized => ?_
    dsimp only
    split_ifs with short
    · exact .pure ⟨[], rfl, Or.inl rfl⟩
    · refine (returns_scope (bitsetBody_selected desc)).bind fun r selected => .pure ?_
      obtain ⟨fields, same, chosen⟩ := selected
      obtain ⟨sizeable, complete⟩ := not_or.mp short
      refine ⟨fields, same, Or.inr ⟨_, ?_, ?_, chosen⟩⟩
      · have known : decodeSizePrefixed body isBe = .ok (size.1, size.2) := sized
        simp only [putBitset, known, if_neg complete]
      · rw [← List.length_pos_iff, List.length_take, List.length_drop]
        omega

theorem orNothing_selected {m : DecodeM (DecodedValue × Nat)} {post : List (String × DecodedValue) → Prop}
    (returns : Returns m fun r => ∃ fields, r.1 = .structure fields ∧ (fields = [] ∨ post fields)) :
    Returns (orNothing m) fun o => ∀ v, o = some v → ∃ fields, v = .structure fields ∧ fields ≠ [] ∧ post fields := by
  refine returns.attempt.bind fun result found => ?_
  split
  case h_1 value consumed =>
    obtain ⟨fields, rfl, chosen⟩ := found _ rfl
    refine .pure fun v some => ?_
    split_ifs at some with empty
    cases some
    have filled : fields ≠ [] := by
      rintro rfl
      exact empty rfl
    exact ⟨fields, rfl, filled, chosen.resolve_left filled⟩
  · exact .pure (by simp)

theorem orElse_returns {first second : DecodeM (Option DecodedValue)} {post : DecodedValue → Prop}
    (left : Returns first fun o => ∀ v, o = some v → post v) (right : Returns second fun o => ∀ v, o = some v → post v) :
    Returns (orElse first second) fun o => ∀ v, o = some v → post v := by
  refine left.bind fun result found => ?_
  split
  · exact .pure found
  · exact right

/-- A decoding returns the value from some cells. -/
def DecodesTo (isBe : Bool) (data : List UInt8) (fieldType : FieldType) (w : DecodedValue) : Prop :=
  ∃ cells later consumed, (PvdDecoder.new isBe).decodeValue data fieldType cells = (.ok (w, consumed), later)

def ValueFrom (isBe : Bool) (desc : StructureDesc) (data : List UInt8) (v : DecodedValue) : Prop :=
  ∃ w f, v = .structure [("value", w)] ∧ (desc.fields.find? fun f => f.name = "value") = some f ∧
    DecodesTo isBe data f.fieldType w

theorem decodesTo_returns (data : List UInt8) (fieldType : FieldType) :
    Returns ((PvdDecoder.new isBe).decodeValue data fieldType) fun r => DecodesTo isBe data fieldType r.1 :=
  fun cells r later result => ⟨cells, later, r.2, result⟩

theorem decodeValueOnlyFromData_value (data : List UInt8) :
    Returns (decodeValueOnlyFromData isBe desc data) fun o => ∀ v, o = some v → ValueFrom isBe desc data v := by
  unfold decodeValueOnlyFromData
  split
  · exact .pure (by simp)
  · rename_i field found
    refine (decodesTo_returns data field.fieldType).attempt.bind fun result decoded => ?_
    split
    case h_1 value consumed =>
      refine .pure fun v same => ?_
      cases same
      exact ⟨value, field, rfl, found, decoded _ rfl⟩
    · exact .pure (by simp)

/-- The field `value` alone, decoded from what stands behind the bitset or from the whole body. -/
def ValueAlone (isBe : Bool) (body : List UInt8) (desc : StructureDesc) (v : DecodedValue) : Prop :=
  (∃ size consumed, decodeSizePrefixed body isBe = .ok (size, consumed) ∧ consumed + size ≤ body.length ∧
    ValueFrom isBe desc (body.drop (consumed + size)) v) ∨ ValueFrom isBe desc body v

theorem decodePutBodyValueOnly_value :
    Returns (decodePutBodyValueOnly isBe body desc) fun o => ∀ v, o = some v → ValueAlone isBe body desc v := by
  have whole : Returns (decodeValueOnlyFromData isBe desc body) fun o =>
      ∀ v, o = some v → ValueAlone isBe body desc v :=
    (decodeValueOnlyFromData_value body).weaken fun o found v same => Or.inr (found v same)
  unfold decodePutBodyValueOnly
  split
  · exact whole
  · rename_i size consumed sized
    split_ifs with complete
    · refine orElse_returns ((decodeValueOnlyFromData_value _).weaken fun o found v same => Or.inl ?_) whole
      exact ⟨size, consumed, sized, complete, found v same⟩
    · exact whole

theorem putBitset_shiftedBody {size consumed : Nat} (sized : decodeSizePrefixed body isBe = .ok (size, consumed))
    (complete : ¬ body.length < consumed + size) {bits : List UInt8}
    (read : putBitset isBe (shiftedBody isBe body size consumed) = some bits) :
    bits = shiftBitsetLeft ((body.drop consumed).take size) 1 ∨ bits = [] := by
  have small := decodeSizePrefixed_lt sized
  have length : (shiftBitsetLeft ((body.drop consumed).take size) 1).length = size + 1 := by
    rw [(shiftBitsetLeft_spec _ 0).1, List.length_take, List.length_drop]
    omega
  unfold shiftedBody putBitset at read
  dsimp only at read
  generalize shiftBitsetLeft ((body.drop consumed).take size) 1 = shifted at length read ⊢
  rw [List.append_assoc] at read
  rcases Nat.lt_or_ge (size + 1) (2 ^ 32) with fits | full
  · rw [decodeSizePrefixed_pushSize (by omega)] at read
    dsimp only at read
    split_ifs at read
    cases read
    left
    rw [List.drop_left, List.take_left]
  · right
    have all : shifted.length = 2 ^ 32 := by omega
    have none : ∀ tail, decodeSizePrefixed (pushSize (2 ^ 32) isBe ++ tail) isBe = .ok (0, 5) := by
      intro tail
      have long : ¬ 4 + tail.length + 1 < 5 := by omega
      cases isBe <;> simp only [pushSize, decodeSizePrefixed, ByteOrder.toBytes] <;> simp [long] <;> rfl
    rw [all, none] at read
    dsimp only at read
    split_ifs at read
    cases read
    rfl

/-- The value is a filled structure of fields that the body selects: by its bitset as sent,
by its bitset shifted by one, or by the bitset behind a status byte. -/
def PutSelects (isBe : Bool) (body : List UInt8) (desc : StructureDesc) (v : DecodedValue) : Prop :=
  ∃ fields, v = .structure fields ∧ fields ≠ [] ∧
    ((∃ bits, putBitset isBe body = some bits ∧ (SelectedBy bits desc fields ∨ SelectedShifted bits desc fields)) ∨
      ∃ rest bits, body = 0xFF :: rest ∧ putBitset isBe rest = some bits ∧ SelectedBy bits desc fields)

theorem sentBitset_selects :
    Returns (orNothing ((PvdDecoder.new isBe).decodeStructureWithBitset body desc)) fun o =>
      ∀ v, o = some v → PutSelects isBe body desc v := by
  refine (orNothing_selected (decodeStructureWithBitset_selected isBe body desc)).weaken ?_
  intro o found v same
  obtain ⟨fields, rfl, filled, bits, read, -, selected⟩ := found v same
  exact ⟨fields, rfl, filled, Or.inl ⟨bits, read, Or.inl selected⟩⟩

theorem decodePutBodyBehindStatus_selects :
    Returns (decodePutBodyBehindStatus isBe body desc) fun o => ∀ v, o = some v → PutSelects isBe body desc v := by
  unfold decodePutBodyBehindStatus
  split
  · rename_i rest
    refine (orNothing_selected (decodeStructureWithBitset_selected isBe rest desc)).weaken ?_
    intro o found v same
    obtain ⟨fields, rfl, filled, bits, read, chosen, selected⟩ := found v same
    exact ⟨fields, rfl, filled, Or.inr ⟨rest, bits, rfl, read, selected⟩⟩
  · exact .pure (by simp)

theorem decodePutBodyShiftedBitset_selects :
    Returns (decodePutBodyShiftedBitset isBe body desc) fun o => ∀ v, o = some v → PutSelects isBe body desc v := by
  unfold decodePutBodyShiftedBitset
  split
  · exact .pure (by simp)
  · rename_i size consumed sized
    split_ifs with short
    · exact .pure (by simp)
    · refine (orNothing_selected
        (decodeStructureWithBitset_selected isBe (shiftedBody isBe body size consumed) desc)).weaken ?_
      intro o found v same
      obtain ⟨fields, rfl, filled, bits, read, chosen, selected⟩ := found v same
      have complete : ¬ body.length < consumed + size := fun less => short (Or.inr less)
      have own : putBitset isBe body = some ((body.drop consumed).take size) := by
        simp only [putBitset, sized, if_neg complete]
      refine ⟨fields, rfl, filled, Or.inl ⟨_, own, Or.inr ?_⟩⟩
      rcases putBitset_shiftedBody sized complete read with rfl | none
      · exact (selectedBy_shift _ desc fields).mp selected
      · exact absurd none chosen

end

/-- A result of two strategies is the first one's, or the second one's after the first gave nothing. -/
theorem orElse_chosen {first second : DecodeM (Option DecodedValue)} {c : Cells} {v : DecodedValue}
    (chosen : (orElse first second c).1 = .ok (some v)) :
    (first c).1 = .ok (some v) ∨ (first c).1 = .ok none ∧ ∃ d, (second d).1 = .ok (some v) := by
  rcases result : first c with ⟨outcome, d⟩
  unfold orElse at chosen
  cases outcome with
  | error e =>
    rw [bind_error result] at chosen
    cases chosen
  | ok o =>
    rw [bind_ok result] at chosen
    cases o with
    | some w => exact Or.inl chosen
    | none => exact Or.inr ⟨rfl, d, chosen⟩

def newCells (isBe : Bool) : Cells := (PvdDecoder.new isBe).fresh

/-- Neither the bitset as sent nor the shifted one gave a field. -/
def NothingSelected (isBe : Bool) (body : List UInt8) (desc : StructureDesc) : Prop :=
  (orNothing ((PvdDecoder.new isBe).decodeStructureWithBitset body desc) (newCells isBe)).1 = .ok none ∧
    (decodePutBodyShiftedBitset isBe body desc (newCells isBe)).1 = .ok none

theorem returns_fst {m : DecodeM (Option DecodedValue)} {post : DecodedValue → Prop} {c : Cells} {v : DecodedValue}
    (returns : Returns m fun o => ∀ v, o = some v → post v) (result : (m c).1 = .ok (some v)) : post v :=
  returns c (some v) (m c).2 (Prod.ext result rfl) v rfl

/-- Every field that a PUT writes is selected by it. Failing that the last fall-back writes `value`. -/
theorem put_writes_selected (isBe : Bool) (body : List UInt8) (desc : StructureDesc) (v : DecodedValue)
    (written : decodePutBody isBe body desc = some v) :
    PutSelects isBe body desc v ∨ NothingSelected isBe body desc ∧ ValueAlone isBe body desc v := by
  have result : (putStrategies isBe body desc (newCells isBe)).1 = .ok (some v) := by
    unfold decodePutBody at written
    split at written
    · rename_i o outcome
      rw [← written]
      exact outcome
    · cases written
  rcases orElse_chosen result with sent | ⟨notSent, c, result⟩
  · exact Or.inl (returns_fst sentBitset_selects sent)
  rcases orElse_chosen result with behind | ⟨-, d, result⟩
  · exact Or.inl (returns_fst decodePutBodyBehindStatus_selects behind)
  rcases orElse_chosen result with shifted | ⟨notShifted, e, value⟩
  · exact Or.inl (returns_fst decodePutBodyShiftedBitset_selects shifted)
  · exact Or.inr ⟨⟨notSent, notShifted⟩, returns_fst decodePutBodyValueOnly_value value⟩

def valueDesc : StructureDesc := ⟨none, [⟨"value", .scalar .int8⟩]⟩

theorem put_writes_selected_value :
    decodePutBody false [0x01, 0x02, 0x07] valueDesc = some (.structure [("value", .int8 7)]) ∧
      (PutSelects false [0x01, 0x02, 0x07] valueDesc (.structure [("value", .int8 7)]) ∨
        NothingSelected false [0x01, 0x02, 0x07] valueDesc ∧
          ValueAlone false [0x01, 0x02, 0x07] valueDesc (.structure [("value", .int8 7)])) :=
  ⟨rfl, put_writes_selected false [0x01, 0x02, 0x07] valueDesc _ rfl⟩

theorem empty_selection_writes_value :
    putBitset false [0x00, 0x07] = some [] ∧
      decodePutBody false [0x00, 0x07] valueDesc = some (.structure [("value", .int8 7)]) :=
  ⟨rfl, rfl⟩

end Spvirit.Server
