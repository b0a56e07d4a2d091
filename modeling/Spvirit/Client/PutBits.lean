import Spvirit.Client.PutWalk
import Spvirit.Codec.Selected

/-! Which bits a payload must have for its input to come back. -/

namespace Spvirit.Client

open Fallible PvdDecoder

/-- The bits from `n` on against the flags, one by one. -/
def EachBit (related : Bool → Bool → Prop) (bit : Nat → Bool) : Nat → List Bool → Prop
  | _, [] => True
  | n, flag :: flags => related (bit n) flag ∧ EachBit related bit (n + 1) flags

abbrev OnlyFlagged := EachBit fun bit flag => bit = true → flag = true

abbrev AllFlagged := EachBit fun bit flag => flag = true → bit = true

section

variable {related : Bool → Bool → Prop} {bit : Nat → Bool} {n : Nat}

theorem eachBit_append {xs ys : List Bool} :
    EachBit related bit n (xs ++ ys) ↔ EachBit related bit n xs ∧ EachBit related bit (n + xs.length) ys := by
  induction xs generalizing n with
  | nil => simp [EachBit]
  | cons x xs ih =>
    rw [List.cons_append, EachBit, EachBit, ih, and_assoc, List.length_cons, Nat.add_right_comm, Nat.add_assoc n xs.length]

theorem eachBit_iff {flags : List Bool} :
    EachBit related bit n flags ↔ ∀ i flag, flags[i]? = some flag → related (bit (n + i)) flag := by
  induction flags generalizing n with
  | nil => simp [EachBit]
  | cons b flags ih =>
    rw [EachBit, ih]
    constructor
    · rintro ⟨head, tail⟩ i flag found
      cases i with
      | zero =>
        cases found
        exact head
      | succ i =>
        have := tail i flag found
        rwa [Nat.add_assoc, Nat.add_comm 1] at this
    · intro all
      refine ⟨all 0 b rfl, fun i flag found => ?_⟩
      have := all (i + 1) flag found
      rwa [Nat.add_assoc, Nat.add_comm 1]

theorem allFlagged_clear (count : Nat) : AllFlagged bit n (List.replicate count false) := by
  rw [AllFlagged, eachBit_iff]
  intro i flag found flagged
  have clear := (List.getElem?_replicate ▸ found : (if i < count then some false else none) = some flag)
  split_ifs at clear
  cases clear
  cases flagged

theorem fieldFlags_none (ft : FieldType) : fieldFlags ft none = List.replicate (1 + countNested ft) false := by
  cases ft with
  | «structure» desc => rw [fieldFlags.eq_def, countNested, Nat.add_comm, List.replicate_succ]
  | _ => rfl

theorem selectedFields_names {above : Bool} {fs : List FieldDesc} {vs : List (String × DecodedValue)}
    (selected : SelectedFields bit above fs n vs) : ∀ p ∈ vs, ∃ f ∈ fs, f.name = p.1 := by
  induction fs generalizing n vs with
  | nil =>
    obtain rfl : vs = [] := selected
    simp
  | cons f fs ih =>
    rcases selected with ⟨v, rest, rfl, -, behind⟩ | behind
    · refine List.forall_mem_cons.mpr ⟨⟨f, List.mem_cons_self, rfl⟩, fun p member => ?_⟩
      obtain ⟨g, among, same⟩ := ih behind p member
      exact ⟨g, List.mem_cons_of_mem f among, same⟩
    · intro p member
      obtain ⟨g, among, same⟩ := ih behind p member
      exact ⟨g, List.mem_cons_of_mem f among, same⟩

theorem givenFields_names {fs : List FieldDesc} {values : List (String × Json)} {vs : List (String × DecodedValue)}
    (given : GivenFields fs values vs) : ∀ p ∈ vs, ∃ f ∈ fs, f.name = p.1 := by
  induction fs generalizing vs with
  | nil =>
    obtain rfl : vs = [] := given
    simp
  | cons f fs ih =>
    rw [GivenFields] at given
    cases found : Json.get values f.name with
    | none =>
      rw [found] at given
      intro p member
      obtain ⟨g, among, same⟩ := ih given p member
      exact ⟨g, List.mem_cons_of_mem f among, same⟩
    | some j =>
      rw [found] at given
      obtain ⟨v, rest, rfl, -, others⟩ := given
      refine List.forall_mem_cons.mpr ⟨⟨f, List.mem_cons_self, rfl⟩, fun p member => ?_⟩
      obtain ⟨g, among, same⟩ := ih others p member
      exact ⟨g, List.mem_cons_of_mem f among, same⟩

variable (bit) in
/-- A value that is both selected and given has all its bits set. -/
def Flagged (ft : FieldType) : Prop :=
  ∀ n j v, SelectedValue bit false ft n v → Given ft j v → DistinctType ft → OnlyFlagged bit n (fieldFlags ft (some j)) →
    AllFlagged bit n (fieldFlags ft (some j))

theorem fields_flagged {fs : List FieldDesc} (each : ∀ f ∈ fs, Flagged bit f.fieldType) {values : List (String × Json)}
    {vs : List (String × DecodedValue)} (selected : SelectedFields bit false fs n vs) (given : GivenFields fs values vs)
    (distinct : DistinctFields fs) (only : OnlyFlagged bit n (namedFlags fs values)) :
    AllFlagged bit n (namedFlags fs values) := by
  induction fs generalizing n vs with
  | nil => exact trivial
  | cons f fs ih =>
    obtain ⟨head, tail⟩ := List.forall_mem_cons.mp each
    rw [namedFlags] at only ⊢
    obtain ⟨here, behind⟩ := eachBit_append.mp only
    have next : n + (fieldFlags f.fieldType (Json.get values f.name)).length = n + 1 + countNested f.fieldType := by
      rw [fieldFlags_length, Nat.add_assoc]
    rw [AllFlagged, eachBit_append]
    rw [next] at behind ⊢
    rw [GivenFields] at given
    cases found : Json.get values f.name with
    | none =>
      rw [found] at given
      refine ⟨by rw [fieldFlags_none]; exact allFlagged_clear _, ?_⟩
      rcases selected with ⟨v, rest, rfl, -, -⟩ | others
      · obtain ⟨g, among, same⟩ := givenFields_names given _ List.mem_cons_self
        exact absurd same (distinct.1 g among)
      · exact ih tail others given distinct.2.2 behind
    | some j =>
      rw [found] at given here
      obtain ⟨v, rest, rfl, own, others⟩ := given
      rcases selected with ⟨v', rest', same, value, later⟩ | later
      · cases same
        exact ⟨head n j v value own distinct.2.1 here, ih tail later others distinct.2.2 behind⟩
      · obtain ⟨g, among, same⟩ := selectedFields_names later _ List.mem_cons_self
        exact absurd same (distinct.1 g among)

theorem flagged (ft : FieldType) : Flagged bit ft := by
  induction ft with
  | struct desc each =>
    rintro n j v ⟨ws, rfl, -, fields⟩ ⟨obj, ws', rfl, same, given⟩ distinct only
    cases same
    obtain ⟨own, inner⟩ : OnlyFlagged bit n (false :: namedFlags desc.fields obj) := only
    have clear : bit n = false := by
      cases set : bit n with
      | false => rfl
      | true => exact (own set).symm
    rw [clear, Bool.or_false] at fields
    exact ⟨by simp, fields_flagged each fields given distinct inner⟩
  | _ =>
    intro n j v selected given distinct only
    have set : bit n = true := by simpa [SelectedValue] using selected
    exact ⟨fun _ => set, trivial⟩

end

section

variable {isBe : Bool} {bitset bytes : List UInt8}

theorem pushSize_read {n size consumed : Nat} {rest : List UInt8}
    (sized : decodeSizePrefixed (pushSize n isBe ++ rest) isBe = .ok (size, consumed)) :
    consumed = (pushSize n isBe).length ∧ size ≤ n := by
  rcases Nat.lt_or_ge n (2 ^ 32) with small | large
  · rw [decodeSizePrefixed_pushSize small] at sized
    cases sized
    exact ⟨rfl, Nat.le_refl _⟩
  · have below := decodeSizePrefixed_lt sized
    refine ⟨?_, by omega⟩
    have long : pushSize n isBe = 0xFE :: ByteOrder.toBytes isBe 4 (n % 2 ^ 32) := by
      rw [pushSize, if_neg (by omega)]
    rw [long] at sized ⊢
    have room : ¬ (0xFE :: ByteOrder.toBytes isBe 4 (n % 2 ^ 32) ++ rest).length < 5 := by
      simp
    rw [List.cons_append, decodeSizePrefixed, if_neg (by decide), if_neg (by decide)] at sized
    rw [List.cons_append] at room
    rw [if_neg room] at sized
    cases sized
    simp

theorem decodeStructureWithBitset_taken (desc : StructureDesc) :
    Returns ((PvdDecoder.new isBe).decodeStructureWithBitset (pushSize bitset.length isBe ++ bitset ++ bytes) desc) fun r =>
      ∃ fields taken, r.1 = .structure fields ∧ taken < 2 ^ 32 ∧ SelectedBy (bitset.take taken) desc fields := by
  unfold decodeStructureWithBitset
  split_ifs
  · exact .throw
  · refine .bindExcept fun size sized => ?_
    obtain ⟨size, consumed⟩ := size
    dsimp only
    split_ifs with short
    · exact .pure ⟨[], 0, rfl, Nat.two_pow_pos 32, selectedFields_nil _⟩
    · refine (returns_scope (bitsetBody_selected desc)).bind fun r selected => .pure ?_
      obtain ⟨fields, same, chosen⟩ := selected
      have read : decodeSizePrefixed (pushSize bitset.length isBe ++ (bitset ++ bytes)) isBe = .ok (size, consumed) := by
        rw [← List.append_assoc]
        exact sized
      obtain ⟨rfl, most⟩ := pushSize_read read
      rw [List.append_assoc, List.drop_left, List.take_append_of_le_length most] at chosen
      exact ⟨fields, size, same, decodeSizePrefixed_lt read, chosen⟩

theorem bitAt_take {count n : Nat} (set : bitAt (bitset.take count) n = true) :
    bitAt bitset n = true ∧ n / 8 < count := by
  unfold bitAt at set ⊢
  rw [List.getElem?_take] at set
  split_ifs at set with inside
  exact ⟨set, inside⟩

/-- A payload that decodes to what its input gives has the bits of all named leaves in the
part of the bitset that is read. -/
theorem round_trips_fits {desc : StructureDesc} {body : PutBody} {root : List (String × Json)}
    {vs : List (String × DecodedValue)} {flagBytes : List UInt8} {length : Nat} (distinct : DistinctFields desc.fields)
    (encodes : Encodes ⟨[], 1, []⟩ body (namedFlags desc.fields root) flagBytes)
    (given : GivenFields desc.fields root vs)
    (decoded : ((PvdDecoder.new isBe).decodeStructureWithBitset
      (pushSize body.bitset.length isBe ++ body.bitset ++ body.data) desc (PvdDecoder.new isBe).fresh).1
        = .ok (.structure vs, length)) : FitsSize (namedFlags desc.fields root) := by
  obtain ⟨fields, taken, same, few, selected⟩ := decodeStructureWithBitset_taken desc _ _ _ (Prod.ext decoded rfl)
  cases same
  have clear : bitAt (body.bitset.take taken) 0 = false := by
    cases set : bitAt (body.bitset.take taken) 0 with
    | false => rfl
    | true => exact (bitAt_take set).1.symm.trans encodes.bits.bitsAre.2
  rw [SelectedBy, clear] at selected
  have only : OnlyFlagged (bitAt (body.bitset.take taken)) 1 (namedFlags desc.fields root) := by
    rw [OnlyFlagged, eachBit_iff]
    intro i flag found set
    have bit := encodes.bits (1 + i)
    rw [(bitAt_take set).1, Nat.add_sub_cancel_left, found] at bit
    simpa [bitAt] using bit.symm
  have all := eachBit_iff.mp (fields_flagged (fun f _ => flagged f.fieldType) selected given distinct only)
  intro i flagged
  have inside := (bitAt_take (all i true flagged rfl)).2
  omega

end

end Spvirit.Client
