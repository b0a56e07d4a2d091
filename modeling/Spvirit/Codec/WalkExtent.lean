import Spvirit.Codec.Extent
import Spvirit.Codec.Marked

/-! Where a walk over a bitset lands: inside the data, and at the bit behind the
fields it has passed. -/

namespace Spvirit.PvdDecoder

open Fallible

variable {dec : PvdDecoder} {data bitset : List UInt8} {counts more : List Nat}

def Lands (data : List UInt8) (bit bits : Nat) (w : Walk) : Prop :=
  w.offset ≤ data.length ∧ (w.finished = true → w.bitOffset = bit + bits)

theorem walkLeaf_lands (ft : FieldType) (name : String) {offset : Nat} (bit : Nat) (inside : offset ≤ data.length) :
    Returns (dec.walkLeaf data bitset ft name offset bit) (Lands data bit 1) := by
  unfold walkLeaf
  split_ifs
  · exact .pure ⟨inside, fun _ => rfl⟩
  · refine (decodeValue_within (data.drop offset) ft).attempt.bind fun result extent => ?_
    split
    case h_1 value consumed =>
      have short := extent _ rfl
      rw [List.length_drop] at short
      exact .pure ⟨by dsimp only at short ⊢; omega, fun _ => rfl⟩
    · exact .pure ⟨inside, fun _ => rfl⟩
  · exact .pure ⟨inside, fun _ => rfl⟩

theorem walkWhole_lands (desc : StructureDesc) (name : String) {offset : Nat} (next : Nat) (inside : offset ≤ data.length) :
    Returns (dec.walkWhole data desc name offset next) (Lands data next 0) := by
  unfold walkWhole
  split_ifs
  · refine (decodeStructure_within (data.drop offset) desc).attempt.bind fun result extent => ?_
    split
    case h_1 value consumed =>
      have short := extent _ rfl
      rw [List.length_drop] at short
      exact .pure ⟨by dsimp only at short ⊢; omega, fun _ => rfl⟩
    · exact .pure ⟨inside, fun _ => rfl⟩
  · exact .pure ⟨inside, fun _ => rfl⟩

/-- The counts stand where the walk looks for them: a field's own at its bit, those of its fields behind it. -/
structure CountsAt (counts : List Nat) (k : Nat) (ft : FieldType) : Prop where
  own : counts[k]? = some (countNested ft)
  below : ∃ more, counts.drop (k + 1) = nestedCounts ft ++ more

theorem countsAt_cons {k : Nat} {f : FieldDesc} {fs : List FieldDesc}
    (aligned : counts.drop k = subtreeFieldCounts (f :: fs) ++ more) :
    CountsAt counts k f.fieldType ∧ counts.drop (k + 1 + countNested f.fieldType) = subtreeFieldCounts fs ++ more := by
  obtain ⟨-, below, behind⟩ := aligned_cons aligned
  have first : (counts.drop k)[0]? = some (countNested f.fieldType) := by
    rw [aligned, subtreeFieldCounts, nestedCounts_length]
    rfl
  rw [List.getElem?_drop, Nat.add_zero] at first
  exact ⟨⟨first, _, below⟩, behind⟩

theorem walkFields_lands {fs : List FieldDesc}
    (each : ∀ f ∈ fs, ∀ name offset k, offset ≤ data.length → CountsAt counts k f.fieldType →
      Returns (dec.walkField data bitset counts f.fieldType name offset (k + 1))
        (Lands data (k + 1) (1 + countNested f.fieldType)))
    {offset k : Nat} (inside : offset ≤ data.length) (aligned : counts.drop k = subtreeFieldCounts fs ++ more) :
    Returns (dec.walkFields data bitset counts fs offset (k + 1)) (Lands data (k + 1) (countFields fs)) := by
  induction fs generalizing offset k with
  | nil => exact .pure ⟨inside, fun _ => rfl⟩
  | cons f fs ih =>
    obtain ⟨head, tail⟩ := List.forall_mem_cons.mp each
    obtain ⟨here, behind⟩ := countsAt_cons aligned
    rw [walkFields]
    refine (head f.name offset k inside here).bind fun w landed => ?_
    split_ifs with finished
    · have bit := landed.2 finished
      have next : w.bitOffset = k + 1 + countNested f.fieldType + 1 := by omega
      rw [next]
      refine (ih tail landed.1 behind).bind fun v stop => .pure ⟨stop.1, fun done => ?_⟩
      have last := stop.2 done
      dsimp only
      rw [countFields]
      omega
    · exact .pure ⟨landed.1, fun done => absurd done finished⟩

theorem walkField_lands (ft : FieldType) : ∀ name offset k, offset ≤ data.length → CountsAt counts k ft →
    Returns (dec.walkField data bitset counts ft name offset (k + 1)) (Lands data (k + 1) (1 + countNested ft)) := by
  induction ft with
  | struct desc each =>
    intro name offset k inside here
    have count : counts.getD (k + 1 - 1) 0 = countNested (.structure desc) := by
      rw [Nat.add_sub_cancel, List.getD_eq_getElem?_getD, here.own]
      rfl
    obtain ⟨more, below⟩ := here.below
    rw [walkField, count]
    split_ifs
    · exact (walkWhole_lands desc name _ inside).weaken fun w landed => ⟨landed.1, fun done => by rw [landed.2 done]; omega⟩
    · refine (walkFields_lands each inside below).bind fun w landed => ?_
      split
      · refine .pure ⟨landed.1, fun done => ?_⟩
        have last := landed.2 done
        rw [countNested]
        dsimp only
        omega
      case isFalse unfinished => exact .pure ⟨landed.1, fun done => absurd done unfinished⟩
    · exact .pure ⟨inside, fun _ => by dsimp only; omega⟩
  | _ => exact fun name offset k inside _ => walkLeaf_lands _ name (k + 1) inside

theorem bitsetBody_within (desc : StructureDesc) : Within data (dec.bitsetBody data desc bitset) := by
  have walk : Within data (dec.bitsetWalk data desc bitset) :=
    (walkFields_lands (fun f _ => walkField_lands f.fieldType) (Nat.zero_le _) (List.append_nil _).symm).bind
      fun w landed => .pure landed.1
  unfold bitsetBody
  split
  · refine (decodeStructure_within data desc).attempt.bind fun result extent => ?_
    split
    · exact .pure (extent _ rfl)
    · exact walk
  · exact walk

theorem decodeStructureWithBitset_within (data : List UInt8) (desc : StructureDesc) :
    Within data (dec.decodeStructureWithBitset data desc) := by
  unfold decodeStructureWithBitset
  split_ifs
  · exact .throw
  · refine .bindExcept fun size sized => ?_
    have extent := decodeSizePrefixed_extent sized
    dsimp only
    split_ifs with short
    · exact .pure extent.2
    · refine (returns_scope (bitsetBody_within desc)).bind fun r body => .pure ?_
      rw [List.length_drop] at body
      dsimp only
      omega

theorem readBitset_within {offset : Nat} {r : List UInt8 × Nat} (read : dec.readBitset data offset = .ok r) :
    offset ≤ r.2 ∧ r.2 ≤ data.length := by
  unfold readBitset at read
  split_ifs at read with past
  cases sized : decodeSizePrefixed (data.drop offset) dec.isBe with
  | error e =>
    rw [sized] at read
    cases read
  | ok size =>
    rw [sized] at read
    change (if data.length < offset + size.2 + size.1 then _ else _) = _ at read
    split_ifs at read with short
    cases read
    dsimp only
    omega

theorem decodeMonitorUpdate_within (data : List UInt8) (desc : StructureDesc) :
    Returns (dec.decodeMonitorUpdate data desc) fun u => u.consumed ≤ data.length :=
  .bindExcept fun _ _ => .skip fun _ => .bindExcept fun _ read => .pure (readBitset_within read).2

end Spvirit.PvdDecoder
