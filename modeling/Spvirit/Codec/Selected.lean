import Spvirit.Codec.WalkExtent

/-! What a bitset selects: a value decoded against it holds some of the fields, in order, each of them selected. -/

namespace Spvirit

open Fallible

mutual

/-- Some of the fields, in order. The first of them has bit `n`; `above` says that the bit
of a structure around them is set. -/
def SelectedFields (bit : Nat → Bool) : Bool → List (FieldDescOf FieldType) → Nat → List (String × DecodedValue) → Prop
  | _, [], _, vs => vs = []
  | above, f :: fs, n, vs =>
    (∃ v rest, vs = (f.name, v) :: rest ∧ SelectedValue bit above f.fieldType n v ∧
      SelectedFields bit above fs (n + 1 + countNested f.fieldType) rest) ∨
    SelectedFields bit above fs (n + 1 + countNested f.fieldType) vs

/-- A structure that comes out empty is selected itself. -/
def SelectedValue (bit : Nat → Bool) : Bool → FieldType → Nat → DecodedValue → Prop
  | above, .structure desc, n, v =>
    ∃ inner, v = .structure inner ∧ (inner = [] → (above || bit n) = true) ∧
      SelectedFields bit (above || bit n) desc.fields (n + 1) inner
  | above, _, n, _ => (above || bit n) = true

end

def SelectedBy (bitset : List UInt8) (desc : StructureDesc) (fields : List (String × DecodedValue)) : Prop :=
  SelectedFields (bitAt bitset) (bitAt bitset 0) desc.fields 1 fields

section

variable {bit : Nat → Bool} {above : Bool} {n : Nat}

theorem selectedFields_nil (fs : List FieldDesc) : SelectedFields bit above fs n [] := by
  induction fs generalizing n with
  | nil => rfl
  | cons f fs ih => exact Or.inr ih

theorem selectedFields_single {f : FieldDesc} {v : DecodedValue} (fs : List FieldDesc)
    (selected : SelectedValue bit above f.fieldType n v) : SelectedFields bit above (f :: fs) n [(f.name, v)] :=
  Or.inl ⟨v, [], rfl, selected, selectedFields_nil fs⟩

theorem selectedValue_leaf {ft : FieldType} (leaf : ft.isStructure = false) (v : DecodedValue) :
    SelectedValue bit above ft n v ↔ (above || bit n) = true := by
  cases ft <;> first | exact Iff.rfl | simp [FieldType.isStructure] at leaf

theorem SelectedFields.mono_of_each {fs : List FieldDesc}
    (each : ∀ f ∈ fs, ∀ n v, SelectedValue bit false f.fieldType n v → SelectedValue bit above f.fieldType n v) :
    ∀ {n vs}, SelectedFields bit false fs n vs → SelectedFields bit above fs n vs := by
  induction fs with
  | nil => exact fun empty => empty
  | cons f fs ih =>
    obtain ⟨head, tail⟩ := List.forall_mem_cons.mp each
    rintro n vs (⟨v, rest, rfl, here, behind⟩ | behind)
    · exact Or.inl ⟨v, rest, rfl, head _ _ here, ih tail behind⟩
    · exact Or.inr (ih tail behind)

theorem SelectedValue.mono (ft : FieldType) :
    ∀ {above n v}, SelectedValue bit false ft n v → SelectedValue bit above ft n v := by
  induction ft with
  | struct desc each =>
    rintro above n v ⟨inner, rfl, own, fields⟩
    rw [Bool.false_or] at own fields
    refine ⟨inner, rfl, fun empty => by rw [own empty, Bool.or_true], ?_⟩
    rcases set : bit n with _ | _
    · rw [set] at fields
      rw [Bool.or_false]
      exact fields.mono_of_each fun f member _ _ => each f member
    · rw [set] at fields
      rw [Bool.or_true]
      exact fields
  | _ =>
    intro above n v selected
    have set : bit n = true := by simpa [SelectedValue] using selected
    simp [SelectedValue, set]

theorem SelectedFields.mono {fs : List FieldDesc} {vs : List (String × DecodedValue)}
    (selected : SelectedFields bit false fs n vs) : SelectedFields bit above fs n vs :=
  selected.mono_of_each fun f _ _ _ => SelectedValue.mono f.fieldType

theorem SelectedFields.append {f : FieldDesc} {fs : List FieldDesc} {here after : List (String × DecodedValue)}
    (head : SelectedFields bit false [f] n here)
    (tail : SelectedFields bit false fs (n + 1 + countNested f.fieldType) after) :
    SelectedFields bit false (f :: fs) n (here ++ after) := by
  rcases head with ⟨v, rest, rfl, value, nothing⟩ | nothing
  · obtain rfl : rest = [] := nothing
    exact Or.inl ⟨v, after, rfl, value, tail⟩
  · obtain rfl : here = [] := nothing
    exact Or.inr tail

end

namespace PvdDecoder

variable {dec : PvdDecoder} {bit : Nat → Bool} {data : List UInt8}

section

variable {decodeValue : List UInt8 → FieldType → DecodeM (DecodedValue × Nat)}

def ReturnsSelected (bit : Nat → Bool) (decodeValue : List UInt8 → FieldType → DecodeM (DecodedValue × Nat)) : Prop :=
  ∀ data ft n, Returns (decodeValue data ft) fun r => SelectedValue bit true ft n r.1

section

variable (selected : ReturnsSelected bit decodeValue)

include selected

theorem decodeFields_selected (fs : List FieldDesc) (offset n : Nat) :
    Returns (decodeFields decodeValue data fs offset) fun r => SelectedFields bit true fs n r.1 := by
  induction fs generalizing offset n with
  | nil => exact .pure rfl
  | cons f fs ih =>
    unfold decodeFields
    split_ifs
    · exact .pure (selectedFields_nil _)
    · refine (selected _ f.fieldType n).attempt.bind fun result here => ?_
      split
      · exact .pure (selectedFields_nil _)
      case h_2 value consumed =>
        refine (ih _ (n + 1 + countNested f.fieldType)).bind fun r behind => .pure ?_
        exact Or.inl ⟨value, r.1, rfl, here _ rfl, behind⟩

theorem decodeStructureWith_selected (desc : StructureDesc) (n : Nat) :
    Returns (dec.decodeStructureWith decodeValue data desc) fun r =>
      ∃ inner, r.1 = .structure inner ∧ SelectedFields bit true desc.fields n inner :=
  returns_scope ((decodeFields_selected selected desc.fields 0 n).bind fun r fields => .pure ⟨r.1, rfl, fields⟩)

theorem decodeValueWith_selected : ReturnsSelected bit (dec.decodeValueWith decodeValue) := by
  intro data ft n
  cases ft with
  | «structure» desc =>
    refine (decodeStructureWith_selected selected desc (n + 1)).weaken ?_
    rintro r ⟨inner, same, fields⟩
    exact ⟨inner, same, fun _ => rfl, fields⟩
  | _ => exact .always fun _ => rfl

end

variable (bit) in
theorem decodeValue_selected (fuel : Nat) : ReturnsSelected bit (dec.decodeValueFuel fuel) := by
  induction fuel with
  | zero => exact fun data ft n => returns_scope (returns_enter .throw)
  | succ fuel ih => exact fun data ft n => returns_scope (returns_enter (decodeValueWith_selected ih data ft n))

end

section

variable {bitset : List UInt8} {counts more : List Nat}

theorem walkLeaf_selected {ft : FieldType} (leaf : ft.isStructure = false) (name : String) (offset n : Nat) :
    Returns (dec.walkLeaf data bitset ft name offset n) fun w =>
      SelectedFields (bitAt bitset) false [⟨name, ft⟩] n w.fields := by
  unfold walkLeaf
  split_ifs with set
  · exact .pure (selectedFields_nil _)
  · refine .skip fun result => ?_
    split
    case h_1 value consumed =>
      exact .pure (@selectedFields_single _ _ _ ⟨name, ft⟩ _ [] ((selectedValue_leaf leaf value).mpr set))
    · exact .pure (selectedFields_nil _)
  · exact .pure (selectedFields_nil _)

theorem walkWhole_selected (desc : StructureDesc) (name : String) (offset next : Nat) {n : Nat} (set : bit n = true) :
    Returns (dec.walkWhole data desc name offset next) fun w =>
      SelectedFields bit false [⟨name, .structure desc⟩] n w.fields := by
  unfold walkWhole
  split_ifs
  · refine (decodeStructureWith_selected (decodeValue_selected bit _) desc (n + 1)).attempt.bind fun result read => ?_
    split
    case h_1 value consumed =>
      obtain ⟨inner, rfl, fields⟩ := read _ rfl
      refine .pure (@selectedFields_single _ _ _ ⟨name, .structure desc⟩ _ [] ⟨inner, rfl, fun _ => set, ?_⟩)
      rw [set]
      exact fields
    · exact .pure (selectedFields_nil _)
  · exact .pure (selectedFields_nil _)

theorem walkFields_selected {fs : List FieldDesc}
    (each : ∀ f ∈ fs, ∀ name offset k, offset ≤ data.length → CountsAt counts k f.fieldType →
      Returns (dec.walkField data bitset counts f.fieldType name offset (k + 1)) fun w =>
        SelectedFields (bitAt bitset) false [⟨name, f.fieldType⟩] (k + 1) w.fields)
    {offset k : Nat} (inside : offset ≤ data.length) (aligned : counts.drop k = subtreeFieldCounts fs ++ more) :
    Returns (dec.walkFields data bitset counts fs offset (k + 1)) fun w =>
      SelectedFields (bitAt bitset) false fs (k + 1) w.fields := by
  induction fs generalizing offset k with
  | nil => exact .pure rfl
  | cons f fs ih =>
    obtain ⟨head, tail⟩ := List.forall_mem_cons.mp each
    obtain ⟨here, behind⟩ := countsAt_cons aligned
    rw [walkFields]
    have both := (head f.name offset k inside here).and (walkField_lands f.fieldType f.name offset k inside here)
    refine both.bind fun w found => ?_
    obtain ⟨selected, landed⟩ := found
    split_ifs with finished
    · have bits := landed.2 finished
      have next : w.bitOffset = k + 1 + countNested f.fieldType + 1 := by omega
      rw [next]
      refine (ih tail landed.1 behind).bind fun after later => .pure (selected.append ?_)
      rwa [Nat.add_right_comm] at later
    · have all := selected.append (@selectedFields_nil (bitAt bitset) false (k + 1 + 1 + countNested f.fieldType) fs)
      rw [List.append_nil] at all
      exact .pure all

theorem walkField_selected (ft : FieldType) : ∀ name offset k, offset ≤ data.length → CountsAt counts k ft →
    Returns (dec.walkField data bitset counts ft name offset (k + 1)) fun w =>
      SelectedFields (bitAt bitset) false [⟨name, ft⟩] (k + 1) w.fields := by
  induction ft with
  | struct desc each =>
    intro name offset k inside here
    obtain ⟨more, below⟩ := here.below
    rw [walkField]
    split_ifs with own any
    · exact walkWhole_selected desc name offset _ own.1
    · refine (walkFields_selected each inside below).bind fun w fields => ?_
      split
      · by_cases empty : w.fields.isEmpty = true
        · simp only [empty, if_true]
          exact .pure (selectedFields_nil _)
        · simp only [empty]
          refine .pure (@selectedFields_single _ _ _ ⟨name, .structure desc⟩ _ [] ⟨_, rfl, ?_, fields.mono⟩)
          exact fun none => absurd (List.isEmpty_iff.mpr none) empty
      · exact .pure (selectedFields_nil _)
    · exact .pure (selectedFields_nil _)
  | _ => exact fun name offset k _ _ => walkLeaf_selected rfl name offset (k + 1)

theorem bitsetBody_selected (desc : StructureDesc) :
    Returns (dec.bitsetBody data desc bitset) fun r => ∃ fields, r.1 = .structure fields ∧ SelectedBy bitset desc fields := by
  have walk : Returns (dec.bitsetWalk data desc bitset) fun r =>
      ∃ fields, r.1 = .structure fields ∧ SelectedBy bitset desc fields :=
    (walkFields_selected (fun f _ => walkField_selected f.fieldType) (Nat.zero_le _) (List.append_nil _).symm).bind
      fun w selected => .pure ⟨w.fields, rfl, selected.mono⟩
  unfold bitsetBody
  split
  case isTrue whole =>
    refine (decodeStructureWith_selected (decodeValue_selected (bitAt bitset) _) desc 1).attempt.bind
      fun result read => ?_
    split
    case h_1 result =>
      obtain ⟨inner, same, fields⟩ := read _ rfl
      refine .pure ⟨inner, same, ?_⟩
      rw [SelectedBy, whole.2]
      exact fields
    · exact walk
  · exact walk

end

end PvdDecoder

end Spvirit
