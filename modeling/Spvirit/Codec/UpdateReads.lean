import Spvirit.Codec.EncodeBits

/-! A monitor update read back: its changed bitset, the marked values, an empty overrun bitset. -/

namespace Spvirit

open Fallible

theorem hasFieldBits_of_bitAt {bitset : List UInt8} {n : Nat} (set : bitAt bitset n = true) (field : 1 ≤ n) :
    hasFieldBits bitset = true := by
  cases bitset with
  | nil => simp [bitAt] at set
  | cons b rest =>
    rw [hasFieldBits, Bool.or_eq_true]
    unfold bitAt at set
    rcases high : n / 8 with _ | j
    · left
      have low : n % 8 < 8 := Nat.mod_lt _ (by norm_num)
      rw [high] at set
      simp only [List.getElem?_cons_zero] at set
      by_contra clear
      have zero : b &&& 0xFE = 0 := by simpa using clear
      have masked := congrArg (fun x : UInt8 => x.toNat.testBit (n % 8)) zero
      have ones : (0xFE : UInt8).toNat.testBit (n % 8) = true := by
        have : 1 ≤ n % 8 := by omega
        interval_cases n % 8 <;> rfl
      simp [Nat.testBit_and, set] at masked
      simp [masked] at ones
    · right
      rw [high] at set
      simp only [List.getElem?_cons_succ] at set
      rcases here : rest[j]? with _ | byte
      · simp [here] at set
      · rw [here] at set
        refine List.any_eq_true.mpr ⟨byte, List.mem_of_getElem? here, ?_⟩
        by_contra clear
        have zero : byte = 0 := by simpa using clear
        simp [zero] at set

namespace PvdDecoder

variable {dec : PvdDecoder} {desc : StructureDesc} {flags : List Bool} {vs : List (String × DecodedValue)}
  {changed values rest : List UInt8} {n : Nat}

theorem readBitset_push {data bitset : List UInt8} (before after : List UInt8) (small : bitset.length < 2 ^ 32)
    (layout : data = before ++ (pushSize bitset.length dec.isBe ++ bitset ++ after)) :
    dec.readBitset data before.length
      = .ok (bitset, before.length + (pushSize bitset.length dec.isBe ++ bitset).length) := by
  subst layout
  have size : decodeSizePrefixed (pushSize bitset.length dec.isBe ++ (bitset ++ after)) dec.isBe
      = .ok (bitset.length, (pushSize bitset.length dec.isBe).length) := decodeSizePrefixed_pushSize small
  rw [readBitset, if_neg (by simp), List.drop_left, List.append_assoc, size]
  simp only [bind, Except.bind]
  rw [if_neg (by simp only [List.length_append]; omega)]
  have here : (before ++ (pushSize bitset.length dec.isBe ++ (bitset ++ after))).drop
      (before.length + (pushSize bitset.length dec.isBe).length) = bitset ++ after := by
    rw [← List.drop_drop, List.drop_left, List.drop_left]
  rw [here, List.take_left, List.length_append, Nat.add_assoc]

/-- The bitset either has a bit below bit 0, or bit 0 is clear, or there is no field. -/
theorem Marked.bitsetBody (marked : Marked dec desc.fields flags vs values n) (nonempty : rest ≠ [])
    (bits : BitsAre changed 1 flags)
    (choice : bitAt changed 0 = false ∨ hasFieldBits changed = true ∨ desc.fields = []) :
    dec.Yields dec.limits.maxDepth n (dec.bitsetBody (values ++ rest) desc changed) (.structure vs, values.length) := by
  have walk : dec.Yields dec.limits.maxDepth n (dec.bitsetWalk (values ++ rest) desc changed)
      (.structure vs, values.length) := by
    have aligned : (subtreeFieldCounts desc.fields).drop 0 = subtreeFieldCounts desc.fields ++ [] := by simp
    have fields := marked.walks nonempty bits aligned (List.drop_zero (l := values ++ rest))
    simp only [Walks, Nat.zero_add] at fields
    exact fields.bindThen .pure
  rw [PvdDecoder.bitsetBody]
  split
  case isFalse => exact walk
  case isTrue whole =>
    obtain clear | below | empty := choice
    · simp [clear] at whole
    · simp [below] at whole
    · -- With no field the whole structure is nothing.
      rw [empty] at marked
      cases marked
      have reads : dec.Reads dec.limits.maxDepth 0 (fun data => dec.decodeStructure data desc) [] (.structure []) :=
        FieldsRead.structure (by rw [empty]; exact .nil)
      exact (reads rest nonempty).attempt.bindThen .pure

/-- Nothing of the body is left unread. -/
theorem Marked.decodeMonitorUpdate (marked : Marked dec desc.fields flags vs values n)
    (bits : BitsAre changed 1 flags) (small : changed.length < 2 ^ 32)
    (choice : bitAt changed 0 = false ∨ hasFieldBits changed = true ∨ desc.fields = [])
    (budget : n ≤ nodeCeiling dec.limits.maxStructFields (values.length + 1)) :
    (dec.decodeMonitorUpdate (pushSize changed.length dec.isBe ++ changed ++ values ++ pushSize 0 dec.isBe) desc dec.fresh).1
      = .ok ⟨.structure vs, changed, [],
          (pushSize changed.length dec.isBe ++ changed ++ values ++ pushSize 0 dec.isBe).length, bitPaths desc⟩ := by
  have nonempty : pushSize 0 dec.isBe ≠ [] := List.length_pos_iff.mp pushSize_length_pos
  obtain ⟨body, same⟩ : ∃ body, body = pushSize changed.length dec.isBe ++ changed ++ values ++ pushSize 0 dec.isBe :=
    ⟨_, rfl⟩
  have first : dec.readBitset body 0 = .ok (changed, (pushSize changed.length dec.isBe ++ changed).length) := by
    have := readBitset_push [] (values ++ pushSize 0 dec.isBe) small (by simpa using same)
    simpa using this
  have last : dec.readBitset body ((pushSize changed.length dec.isBe ++ changed).length + values.length)
      = .ok ([], body.length) := by
    have := @readBitset_push dec body [] (pushSize changed.length dec.isBe ++ changed ++ values) [] (by simp)
      (by simpa using same)
    simpa [same, Nat.add_assoc] using this
  have data : body.drop (pushSize changed.length dec.isBe ++ changed).length = values ++ pushSize 0 dec.isBe := by
    rw [same, List.append_assoc, List.drop_left]
  have length : (values ++ pushSize 0 dec.isBe).length = values.length + 1 := by simp [pushSize]
  have value : (dec.decodeStructureWithBitsetBody (body.drop (pushSize changed.length dec.isBe ++ changed).length)
      desc changed dec.fresh).1 = .ok (.structure vs, values.length) := by
    rw [data, decodeStructureWithBitsetBody, length]
    exact scope_fresh (marked.bitsetBody nonempty bits choice) budget
  rcases result : dec.decodeStructureWithBitsetBody (body.drop (pushSize changed.length dec.isBe ++ changed).length)
    desc changed dec.fresh with ⟨r, c⟩
  rw [result] at value
  obtain rfl : r = .ok (.structure vs, values.length) := value
  rw [← same, PvdDecoder.decodeMonitorUpdate, first, ofExcept_ok_bind]
  dsimp only
  rw [bind_ok result]
  simp only [last, ofExcept_ok_bind, pure_apply]

end PvdDecoder

end Spvirit
