import Spvirit.Codec.PublicCalls
import Spvirit.Codec.SelectionMeaning

/-! A structure decoded under a bitset, against what its bits mean. -/

namespace Spvirit

open Fallible

theorem testBit_of_ne_zero {b : UInt8} (some : b ≠ 0) : ∃ i < 8, b.toNat.testBit i = true := by
  have positive : b.toNat ≠ 0 := fun zero => some (UInt8.toNat_inj.mp zero)
  obtain ⟨i, set⟩ := Nat.exists_testBit_of_ne_zero positive
  refine ⟨i, ?_, set⟩
  by_contra high
  have small : b.toNat < 2 ^ i := b.toNat_lt.trans_le (Nat.pow_le_pow_right (by norm_num) (by omega : 8 ≤ i))
  rw [Nat.testBit_lt_two_pow small] at set
  cases set

theorem bitAt_of_hasFieldBits {bitset : List UInt8} (some : hasFieldBits bitset = true) :
    ∃ n, 1 ≤ n ∧ bitAt bitset n = true := by
  cases bitset with
  | nil => cases some
  | cons b rest =>
    rw [hasFieldBits, Bool.or_eq_true] at some
    rcases some with first | later
    · obtain ⟨i, small, set⟩ := testBit_of_ne_zero (by simpa using first : b &&& 0xFE ≠ 0)
      rw [UInt8.toNat_and, Nat.testBit_and, Bool.and_eq_true] at set
      have positive : 1 ≤ i := by
        by_contra zero
        obtain rfl : i = 0 := by omega
        exact absurd set.2 (by decide)
      refine ⟨i, positive, ?_⟩
      rw [bitAt, Nat.div_eq_of_lt small, List.getElem?_cons_zero, Nat.mod_eq_of_lt small]
      exact set.1
    · obtain ⟨byte, member, nonzero⟩ := List.any_eq_true.mp later
      obtain ⟨i, small, set⟩ := testBit_of_ne_zero (by simpa using nonzero : byte ≠ 0)
      obtain ⟨j, found⟩ := List.getElem?_of_mem member
      refine ⟨8 * (j + 1) + i, by omega, ?_⟩
      have high : (8 * (j + 1) + i) / 8 = j + 1 := by omega
      have low : (8 * (j + 1) + i) % 8 = i := by omega
      rw [bitAt, high, List.getElem?_cons_succ, found, low]
      exact set

def fieldBits (bitset : List UInt8) (desc : StructureDesc) : List Bool :=
  (List.range (countStructureFields desc)).map fun i => bitAt bitset (1 + i)

theorem fieldBits_length (bitset : List UInt8) (desc : StructureDesc) :
    (fieldBits bitset desc).length = countFields desc.fields := by
  simp [fieldBits, countStructureFields]

theorem bitsAre_fieldBits (bitset : List UInt8) (desc : StructureDesc) : BitsAre bitset 1 (fieldBits bitset desc) :=
  bitsAre_of_forall fun i inside => by simp [fieldBits]

/-- No bit is set behind those of the descriptor. -/
def BitsOf (bitset : List UInt8) (desc : StructureDesc) : Prop :=
  ∀ n, countStructureFields desc < n → bitAt bitset n = false

/-- Bit 0 stands alone, or whatever lies below a set structure bit beside other bits
is readable by the bits below it. -/
def unambiguous (bitset : List UInt8) (desc : StructureDesc) : Bool :=
  bitAt bitset 0 && !(fieldBits bitset desc).any id || readable (bitAt bitset 0) desc.fields (fieldBits bitset desc)

theorem hasFieldBits_of_any {bitset : List UInt8} {desc : StructureDesc} (within : BitsOf bitset desc) :
    hasFieldBits bitset = (fieldBits bitset desc).any id := by
  rw [Bool.eq_iff_iff]
  constructor
  · intro some
    obtain ⟨n, positive, set⟩ := bitAt_of_hasFieldBits some
    have inside : n ≤ countStructureFields desc := by
      by_contra beyond
      rw [within n (by omega)] at set
      cases set
    refine List.any_eq_true.mpr ⟨true, ?_, rfl⟩
    refine List.mem_map.mpr ⟨n - 1, List.mem_range.mpr (by omega), ?_⟩
    rw [show 1 + (n - 1) = n by omega, set]
  · intro some
    obtain ⟨b, member, set⟩ := List.any_eq_true.mp some
    obtain ⟨i, -, rfl⟩ := List.mem_map.mp member
    exact hasFieldBits_of_bitAt set (by omega)

namespace PvdDecoder

variable {dec : PvdDecoder} {c : Cells} {bitset bytes : List UInt8} {desc : StructureDesc} {vs : List DecodedValue}
  {levels n : Nat}

/-- The whole of the bitset and the block is read, and the selected leaves are reported with their values. -/
def Delivers (dec : PvdDecoder) (c : Cells) (bitset bytes : List UInt8) (desc : StructureDesc)
    (vs : List DecodedValue) : Prop :=
  ∃ out, (dec.decodeStructureWithBitset (pushSize bitset.length dec.isBe ++ bitset ++ bytes) desc c).1
      = .ok (.structure out, (pushSize bitset.length dec.isBe ++ bitset ++ bytes).length) ∧
    Shows (bitAt bitset 0) desc.fields (fieldBits bitset desc) vs out

theorem Block.bitsetBody (block : Block dec levels (bitAt bitset 0) desc.fields (fieldBits bitset desc) vs bytes n)
    (deep : levels + fieldsHeight desc.fields ≤ dec.limits.maxDepth) (within : BitsOf bitset desc)
    (clear : unambiguous bitset desc = true) :
    ∃ out, Shows (bitAt bitset 0) desc.fields (fieldBits bitset desc) vs out ∧
      dec.Yields dec.limits.maxDepth n (dec.bitsetBody bytes desc bitset) (.structure out, bytes.length) := by
  unfold PvdDecoder.bitsetBody
  rw [hasFieldBits_of_any within]
  by_cases whole : ¬ (fieldBits bitset desc).any id ∧ bitAt bitset 0
  · rw [if_pos whole]
    rw [whole.2] at block ⊢
    obtain ⟨out, shows, value⟩ := block.decodeStructure deep []
    rw [List.append_nil] at value
    exact ⟨out, shows, value.attempt.bindThen .pure⟩
  · rw [if_neg whole]
    have readable : readable (bitAt bitset 0) desc.fields (fieldBits bitset desc) = true := by
      unfold unambiguous at clear
      rw [Bool.or_eq_true] at clear
      refine clear.resolve_left fun alone => whole ?_
      simpa [and_comm] using alone
    obtain ⟨out, shows, walk⟩ := @Block.walks dec _ _ _ _ bytes bytes bitset (subtreeFieldCounts desc.fields) levels n
      block deep 0 0 [] [] readable (bitsAre_fieldBits bitset desc) (by simp) (by simp)
    simp only [Walks, Nat.zero_add] at walk
    exact ⟨out, shows, walk.bindThen .pure⟩

theorem decodeStructureWithBitset_push (small : bitset.length < 2 ^ 32) (some : bitset ≠ []) :
    dec.decodeStructureWithBitset (pushSize bitset.length dec.isBe ++ bitset ++ bytes) desc
      = dec.decodeStructureWithBitsetBody bytes desc bitset >>= fun r =>
          pure (r.1, (pushSize bitset.length dec.isBe).length + bitset.length + r.2) := by
  have size : dec.decodeSize (pushSize bitset.length dec.isBe ++ bitset ++ bytes)
      = ofExcept (.ok (bitset.length, (pushSize bitset.length dec.isBe).length)) := by
    rw [PvdDecoder.decodeSize, List.append_assoc, decodeSizePrefixed_pushSize small]
  have positive := List.length_pos_iff.mpr some
  have behind : (pushSize bitset.length dec.isBe ++ bitset ++ bytes).drop (pushSize bitset.length dec.isBe).length
      = bitset ++ bytes := by
    rw [List.append_assoc, List.drop_left]
  rw [PvdDecoder.decodeStructureWithBitset, if_neg (by simp [some]), size, ofExcept_ok_bind]
  dsimp only
  rw [if_neg (by simp only [List.length_append]; omega), behind, List.take_left, ← List.drop_drop, behind, List.drop_left]

theorem decodeStructureWithBitset_none :
    dec.decodeStructureWithBitset (pushSize ([] : List UInt8).length dec.isBe ++ [] ++ bytes) desc
      = pure (.structure [], 1) := rfl

theorem Delivers.unambiguous (distinct : DistinctNames desc.fields) (small : bitset.length < 2 ^ 32)
    (within : BitsOf bitset desc) (delivers : Delivers dec c bitset bytes desc vs) : unambiguous bitset desc = true := by
  obtain ⟨out, decoded, shows⟩ := delivers
  unfold Spvirit.unambiguous
  by_cases none : bitset = []
  · subst none
    rw [decodeStructureWithBitset_none] at decoded
    obtain ⟨same, -⟩ := Prod.mk.inj (Except.ok.inj decoded)
    cases same
    rw [shows.readable rfl, Bool.or_true]
  by_cases whole : ¬ (fieldBits bitset desc).any id ∧ bitAt bitset 0
  · simp [whole.1, whole.2]
  · have walk : Returns (dec.decodeStructureWithBitsetBody bytes desc bitset) fun r =>
        ∀ out, r.1 = .structure out → ∀ above vs, Shows above desc.fields (fieldBits bitset desc) vs out →
          readable above desc.fields (fieldBits bitset desc) = true := by
      refine returns_scope ?_
      unfold PvdDecoder.bitsetBody
      rw [hasFieldBits_of_any within, if_neg whole]
      refine (walkFields_shown (fun f _ offset k own inner => walkField_shown f.fieldType f.name offset k own inner) distinct
        (bitsAre_fieldBits bitset desc) (fieldBits_length bitset desc) (List.append_nil _).symm (Nat.zero_le _)).bind
        fun w shown => .pure ?_
      intro out same
      cases same
      exact shown.2
    rw [decodeStructureWithBitset_push small none] at decoded
    rcases body : dec.decodeStructureWithBitsetBody bytes desc bitset c with ⟨_ | r, t⟩
    · rw [bind_error body] at decoded
      cases decoded
    · rw [bind_ok body] at decoded
      obtain ⟨same, -⟩ := Prod.mk.inj (Except.ok.inj decoded)
      rw [walk c r t body out same _ _ shows, Bool.or_true]

section

variable (block : Block dec levels (bitAt bitset 0) desc.fields (fieldBits bitset desc) vs bytes n)
  (small : bitset.length < 2 ^ 32) (within : BitsOf bitset desc)
  (deep : levels + fieldsHeight desc.fields ≤ dec.limits.maxDepth)
  (budget : n ≤ nodeCeiling dec.limits.maxStructFields bytes.length)

include block small within deep budget

theorem Block.delivers (depth : c.depth = 0) (idle : c.budgetScope = 0) (clear : unambiguous bitset desc = true) :
    Delivers dec c bitset bytes desc vs := by
  by_cases none : bitset = []
  · subst none
    have unset : (fieldBits [] desc).any id = false := by simp [fieldBits, bitAt]
    have empty := block.none_set rfl unset
    obtain ⟨nothing, -, shows⟩ := block.silent (by omega) empty
    subst nothing empty
    exact ⟨[], rfl, shows⟩
  · obtain ⟨out, shows, yields⟩ := block.bitsetBody deep within clear
    have value := scope_idle depth idle yields budget
    refine ⟨out, ?_, shows⟩
    rw [decodeStructureWithBitset_push small none]
    rcases body : dec.decodeStructureWithBitsetBody bytes desc bitset c with ⟨r, t⟩
    have same : r = .ok (.structure out, bytes.length) := by
      rw [← value]
      exact (congrArg Prod.fst body).symm
    subst same
    rw [bind_ok body, List.length_append, List.length_append]
    rfl

/-- The decoder delivers a block whenever its bitset is unambiguous, and, where names
tell the fields apart, only then: a bit below a set structure bit hides the leaves
beside it. -/
theorem set_bit_means_whole_iff (calls : List PublicCall) :
    (unambiguous bitset desc = true → Delivers dec (dec.after calls) bitset bytes desc vs) ∧
      (DistinctNames desc.fields →
        (Delivers dec (dec.after calls) bitset bytes desc vs ↔ unambiguous bitset desc = true)) := by
  have idle := (@after_reaches dec calls).idle
  have sufficient := block.delivers small within deep budget idle.depth idle.budgetScope
  exact ⟨sufficient, fun distinct => ⟨fun delivers => delivers.unambiguous distinct small within, sufficient⟩⟩

end

theorem readsLeaf_scalar {v : DecodedValue} {tc : TypeCode} (code : v.scalarCode = some tc) :
    dec.ReadsLeaf 1 0 (.scalar tc) (pushDecodedValue dec.isBe v) v := by
  intro fuel positive rest
  obtain ⟨fuel, rfl⟩ : ∃ k, fuel = k + 1 := ⟨fuel - 1, by omega⟩
  have read : dec.Yields 0 0 (dec.decodeValueWith (dec.decodeValueFuel fuel) (pushDecodedValue dec.isBe v ++ rest) (.scalar tc))
      (v, (pushDecodedValue dec.isBe v).length) := .ofExcept (decodeScalar_push code)
  exact read.enter.scope

def twoBytes : StructureDesc := ⟨none, [⟨"s", .structure ⟨none, [⟨"a", .scalar .int8⟩, ⟨"b", .scalar .int8⟩]⟩⟩]⟩

theorem block_twoBytes {above own a b : Bool} (all : (above || own) = true) :
    Block (new false) 1 above twoBytes.fields [own, a, b] [.int8 5, .int8 7] [5, 7] 0 := by
  have selected : ∀ bit : Bool, (above || own || bit) = true := by simp [all]
  have leaves : Block (new false) 1 (above || own)
      (⟨none, [⟨"a", .scalar .int8⟩, ⟨"b", .scalar .int8⟩]⟩ : StructureDesc).fields [a, b] [.int8 5, .int8 7] [5, 7] 0 :=
    .leaf "a" rfl (selected a) (readsLeaf_scalar rfl) (.leaf "b" rfl (selected b) (readsLeaf_scalar rfl) (.nil _))
  exact .nested "s" leaves (.nil above)

theorem bitsOf_twoBytes {b : UInt8} (low : b.toNat < 2 ^ 4) : BitsOf [b] twoBytes := by
  intro n beyond
  have outside : 4 ≤ n := beyond
  rcases Nat.lt_or_ge n 8 with inside | past
  · have small : b.toNat < 2 ^ n := low.trans_le (Nat.pow_le_pow_right (by norm_num) outside)
    rw [bitAt, Nat.div_eq_of_lt inside, List.getElem?_cons_zero, Nat.mod_eq_of_lt inside]
    exact Nat.testBit_lt_two_pow small
  · rw [bitAt, List.getElem?_eq_none (by simp only [List.length_singleton]; omega)]

theorem set_bit_loses_second_byte :
    Block (new false) 1 (bitAt [6] 0) twoBytes.fields (fieldBits [6] twoBytes) [.int8 5, .int8 7] [5, 7] 0 ∧
      BitsOf [6] twoBytes ∧ ¬ Delivers (new false) (new false).fresh [6] [5, 7] twoBytes [.int8 5, .int8 7] ∧
      ((new false).decodeStructureWithBitset [1, 6, 5, 7] twoBytes (new false).fresh).1
        = .ok (.structure [("s", .structure [("a", .int8 5)])], 3) := by
  have read : ((new false).decodeStructureWithBitset [1, 6, 5, 7] twoBytes (new false).fresh).1
      = .ok (.structure [("s", .structure [("a", .int8 5)])], 3) := rfl
  refine ⟨block_twoBytes rfl, bitsOf_twoBytes (by decide), ?_, read⟩
  rintro ⟨out, decoded, -⟩
  cases read.symm.trans decoded

theorem set_bit_means_whole_alone :
    unambiguous [2] twoBytes = true ∧
      Delivers (new false) ((new false).after []) [2] [5, 7] twoBytes [.int8 5, .int8 7] := by
  have clear : unambiguous [2] twoBytes = true := rfl
  have block : Block (new false) 1 (bitAt [2] 0) twoBytes.fields (fieldBits [2] twoBytes) [.int8 5, .int8 7] [5, 7] 0 :=
    block_twoBytes rfl
  have deep : 1 + fieldsHeight twoBytes.fields ≤ (new false).limits.maxDepth := by decide
  exact ⟨clear, (set_bit_means_whole_iff block (by decide) (bitsOf_twoBytes (by decide)) deep (Nat.zero_le _) []).1 clear⟩

end PvdDecoder

end Spvirit
