import Spvirit.Codec.Marked

/-! The bitsets the encoders write. -/

namespace Spvirit

/-- The bytes of a bitset of `totalBits` ones; the bits behind them stay clear. -/
def allOnes (totalBits : Nat) : List UInt8 :=
  let bitsetSize := (totalBits + 7) / 8
  let spare := bitsetSize * 8 - totalBits
  let bitset := List.replicate bitsetSize (0xFF : UInt8)
  if spare ≠ 0 then bitset.set (bitset.length - 1) (0xFF >>> UInt8.ofNat spare) else bitset

def pushAllOnesBitset (totalBits : Nat) (isBe : Bool) : List UInt8 :=
  pushSize (allOnes totalBits).length isBe ++ allOnes totalBits

def setBit (bitset : List UInt8) (i : Nat) : List UInt8 :=
  bitset.modify (i / 8) fun b => b ||| (1 <<< UInt8.ofNat (i % 8))

def bitsetOfFlags (bits : List Bool) : List UInt8 :=
  bits.zipIdx.foldl (fun bitset (b, i) => if b then setBit bitset i else bitset)
    (List.replicate ((bits.length + 7) / 8) 0)

def encodeBitsetFromFlags (bits : List Bool) (isBe : Bool) : List UInt8 :=
  pushSize (bitsetOfFlags bits).length isBe ++ bitsetOfFlags bits

theorem testBit_or_shift (b : UInt8) {i : Nat} (small : i < 8) (j : Nat) :
    (b ||| (1 <<< UInt8.ofNat i)).toNat.testBit j = (b.toNat.testBit j || decide (i = j)) := by
  have shifted : (1 <<< UInt8.ofNat i : UInt8).toNat = 2 ^ i := by
    interval_cases i <;> rfl
  rw [UInt8.toNat_or, Nat.testBit_or, shifted, Nat.testBit_two_pow]

theorem bitAt_setBit {bitset : List UInt8} {i n : Nat} (inside : i / 8 < bitset.length) :
    bitAt (setBit bitset i) n = (bitAt bitset n || decide (i = n)) := by
  have low : i % 8 < 8 := Nat.mod_lt _ (by norm_num)
  unfold bitAt setBit
  rw [List.getElem?_modify]
  by_cases same : i / 8 = n / 8
  · obtain ⟨b, here⟩ : ∃ b, bitset[n / 8]? = some b := ⟨_, List.getElem?_eq_getElem (same ▸ inside)⟩
    have equal : i % 8 = n % 8 ↔ i = n := ⟨fun h => by omega, fun h => by rw [h]⟩
    rw [here]
    simp only [if_pos same, Option.map_eq_map, Option.map_some, testBit_or_shift b low, equal]
  · have different : i ≠ n := fun h => same (by rw [h])
    rcases here : bitset[n / 8]? with _ | b <;> simp [same, different]

@[simp] theorem setBit_length (bitset : List UInt8) (i : Nat) : (setBit bitset i).length = bitset.length := by
  simp [setBit]

theorem bitAt_replicate_zero (size n : Nat) : bitAt (List.replicate size 0) n = false := by
  unfold bitAt
  rw [List.getElem?_replicate]
  by_cases inside : n / 8 < size <;> simp [inside]

theorem testBit_ones_shift {spare j : Nat} (small : spare < 8) (small' : j < 8) :
    (0xFF >>> UInt8.ofNat spare : UInt8).toNat.testBit j = decide (j < 8 - spare) := by
  interval_cases spare <;> interval_cases j <;> rfl

theorem allOnes_length (totalBits : Nat) : (allOnes totalBits).length = (totalBits + 7) / 8 := by
  unfold allOnes
  simp only
  split <;> simp

theorem allOnes_getElem? {totalBits j : Nat} (inside : j < (totalBits + 7) / 8) :
    (allOnes totalBits)[j]? = some (0xFF >>> UInt8.ofNat
      (if j = (totalBits + 7) / 8 - 1 then (totalBits + 7) / 8 * 8 - totalBits else 0)) := by
  unfold allOnes
  simp only [List.length_replicate]
  by_cases last : j = (totalBits + 7) / 8 - 1
  · rw [if_pos last]
    by_cases spare : (totalBits + 7) / 8 * 8 - totalBits = 0
    · rw [if_neg (by simpa using spare), List.getElem?_replicate_of_lt inside, spare]
      rfl
    · rw [if_pos spare, ← last, List.getElem?_set_self (by simpa using inside)]
  · rw [if_neg last]
    split
    · rw [List.getElem?_set_ne (Ne.symm last), List.getElem?_replicate_of_lt inside]
      rfl
    · rw [List.getElem?_replicate_of_lt inside]
      rfl

theorem bitAt_allOnes (totalBits n : Nat) : bitAt (allOnes totalBits) n = decide (n < totalBits) := by
  have low : n % 8 < 8 := Nat.mod_lt _ (by norm_num)
  unfold bitAt
  by_cases inside : n / 8 < (totalBits + 7) / 8
  · rw [allOnes_getElem? inside]
    simp only
    rw [testBit_ones_shift (by split <;> omega) low]
    congr 1
    apply propext
    split <;> omega
  · rw [List.getElem?_eq_none (by rw [allOnes_length]; omega)]
    have : ¬ n < totalBits := by omega
    simp [this]

theorem bitsAre_allOnes (count : Nat) : BitsAre (allOnes (1 + count)) 1 (List.replicate count true) :=
  bitsAre_of_forall fun i inside => by
    rw [List.length_replicate] at inside
    rw [bitAt_allOnes, List.getElem_replicate, decide_eq_true (by omega)]

end Spvirit
