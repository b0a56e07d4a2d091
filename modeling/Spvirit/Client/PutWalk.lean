import Spvirit.Client.PutNeeds

/-! The walk over the fields of a PUT's payload, against the bytes of its input. -/

namespace Spvirit.Client

open Fallible PvdDecoder

section

variable {ops : JsonOps} {isBe : Bool}

variable {data bitset : List UInt8} {counts : List Nat}

/-- What a walk over one field does: a field named in the input is reported alone, and if
its value is the given one it takes at least its bytes, and no more only if it is carried. -/
structure FieldWalked (name : String) (ft : FieldType) (j : Option Json) (bytes : List UInt8) (offset : Nat) (w : Walk) :
    Prop where
  unnamed : j = none → w.finished = true ∧ w.fields = [] ∧ w.offset = offset ∧ bytes = []
  stopped : w.finished = false → w.fields = []
  reported : w.finished = true → ∀ i, j = some i → ∃ v, w.fields = [(name, v)] ∧ (Given ft i v →
    offset + bytes.length ≤ w.offset ∧
      (w.offset ≤ offset + bytes.length → CarriedField DecodeLimits.default ft (some i)))

/-- The same for several fields. -/
structure FieldsWalked (fs : List FieldDesc) (values : List (String × Json)) (bytes : List UInt8) (offset : Nat)
    (w : Walk) : Prop where
  stopped : w.finished = false → ¬ GivenFields fs values w.fields
  filled : w.finished = true → (∃ f ∈ fs, (Json.get values f.name).isSome) → w.fields ≠ []
  reported : w.finished = true → GivenFields fs values w.fields → offset + bytes.length ≤ w.offset ∧
    (w.offset ≤ offset + bytes.length → CarriedFields DecodeLimits.default fs values)

variable (ops isBe data bitset counts) in
def WalksField (ft : FieldType) : Prop :=
  ∀ name offset k j bytes, offset ≤ data.length → CountsAt counts k ft → BitsAre bitset (k + 1) (fieldFlags ft j) →
    FieldEncodes ops isBe ft name j bytes → DistinctType ft →
    Returns ((PvdDecoder.new isBe).walkField data bitset counts ft name offset (k + 1))
      (FieldWalked name ft j bytes offset)

theorem leaf_walksField {ft : FieldType} (leaf : ft.isStructure = false) : WalksField ops isBe data bitset counts ft := by
  intro name offset k j bytes inside here bits encoded distinct
  rw [fieldFlags_leaf leaf] at bits
  rw [walkField_leaf leaf]
  unfold walkLeaf
  rcases (fieldEncodes_leaf leaf).mp encoded with ⟨rfl, rfl⟩ | ⟨i, rfl, value⟩
  · rw [if_neg (by simp [bits.1])]
    exact .pure ⟨fun _ => ⟨rfl, rfl, rfl, rfl⟩, by simp, by simp⟩
  · have set : bitAt bitset (k + 1) = true := bits.1
    rw [if_pos set]
    split_ifs
    · exact .pure ⟨by simp, fun _ => rfl, by simp⟩
    · refine (@decodeValue_takes ops isBe _ (data.drop offset) ft distinct).attempt.bind fun result least => ?_
      split
      · rename_i v consumed
        obtain ⟨below, fuel, takes⟩ := least _ rfl
        obtain rfl : below = 31 := by
          change 32 = below + 1 at fuel
          omega
        refine .pure ⟨by simp, by simp, fun _ i' same => ⟨v, rfl, fun given => ?_⟩⟩
        cases same
        obtain ⟨enough, carry⟩ := takes false i name bytes given value
        dsimp only at enough carry ⊢
        refine ⟨by omega, fun exactly => ?_⟩
        have carried := carry rfl (by omega)
        cases ft <;> first
          | exact fun k same => by cases same; exact carried
          | simp [FieldType.isStructure] at leaf
      · exact .pure ⟨by simp, fun _ => rfl, by simp⟩

theorem carriedField_none (ft : FieldType) : CarriedField DecodeLimits.default ft none := by
  cases ft <;> exact fun k impossible => by cases impossible

theorem FieldWalked.cons {f : FieldDesc} {fs : List FieldDesc} {values : List (String × Json)} {head tail : List UInt8}
    {offset : Nat} {w after : Walk} (here : FieldWalked f.name f.fieldType (Json.get values f.name) head offset w)
    (finished : w.finished = true) (later : FieldsWalked fs values tail w.offset after) :
    FieldsWalked (f :: fs) values (head ++ tail) offset { after with fields := w.fields ++ after.fields } := by
  cases found : Json.get values f.name with
  | none =>
    obtain ⟨-, none, same, rfl⟩ := here.unnamed found
    have given : ∀ vs, GivenFields (f :: fs) values vs ↔ GivenFields fs values vs := fun vs => by
      rw [GivenFields, found]
    refine ⟨fun stop => ?_, fun done named => ?_, fun done all => ?_⟩
    · rw [none, List.nil_append, given]
      exact later.stopped stop
    · rw [none, List.nil_append]
      obtain ⟨g, member, isSome⟩ := named
      rcases List.mem_cons.mp member with rfl | behind
      · simp [found] at isSome
      · exact later.filled done ⟨g, behind, isSome⟩
    · rw [none, List.nil_append, given] at all
      obtain ⟨least, carry⟩ := later.reported done all
      rw [same] at least carry
      refine ⟨least, fun exactly => ⟨?_, carry exactly⟩⟩
      rw [found]
      exact carriedField_none f.fieldType
  | some j =>
    obtain ⟨v, only, own⟩ := here.reported finished j found
    have given : ∀ vs, GivenFields (f :: fs) values ((f.name, v) :: vs) ↔
        Given f.fieldType j v ∧ GivenFields fs values vs := fun vs => by
      rw [GivenFields, found]
      constructor
      · rintro ⟨x, rest, same, gives, others⟩
        cases same
        exact ⟨gives, others⟩
      · exact fun both => ⟨v, vs, rfl, both.1, both.2⟩
    refine ⟨fun stop => ?_, fun done named => ?_, fun done all => ?_⟩
    · rw [only, List.singleton_append, given]
      exact fun both => later.stopped stop both.2
    · rw [only]
      exact List.cons_ne_nil _ _
    · rw [only, List.singleton_append, given] at all
      obtain ⟨least, carry⟩ := later.reported done all.2
      obtain ⟨first, carryFirst⟩ := own all.1
      rw [List.length_append]
      dsimp only
      refine ⟨by omega, fun exactly => ⟨?_, carry (by omega)⟩⟩
      rw [found]
      exact carryFirst (by omega)

theorem walkFields_walked {fs : List FieldDesc} (each : ∀ f ∈ fs, WalksField ops isBe data bitset counts f.fieldType)
    {values : List (String × Json)} {bytes : List UInt8} {offset k : Nat} {more : List Nat} (inside : offset ≤ data.length)
    (aligned : counts.drop k = subtreeFieldCounts fs ++ more) (bits : BitsAre bitset (k + 1) (namedFlags fs values))
    (encoded : FieldsEncode ops isBe fs values bytes) (distinct : DistinctFields fs) :
    Returns ((PvdDecoder.new isBe).walkFields data bitset counts fs offset (k + 1))
      (FieldsWalked fs values bytes offset) := by
  induction fs generalizing offset k bytes with
  | nil =>
    obtain rfl : bytes = [] := encoded
    exact .pure ⟨by simp, by simp, fun _ _ => ⟨by simp, fun _ => trivial⟩⟩
  | cons f fs ih =>
    obtain ⟨head, tail⟩ := List.forall_mem_cons.mp each
    obtain ⟨here, behind⟩ := countsAt_cons aligned
    obtain ⟨bytes, rest, rfl, own, others⟩ := encoded
    obtain ⟨ownBits, otherBits⟩ := bitsAre_append.mp bits
    rw [walkFields]
    have both := (head f.name offset k _ bytes inside here ownBits own distinct.2.1).and
      (@walkField_lands (PvdDecoder.new isBe) data bitset counts f.fieldType f.name offset k inside here)
    refine both.bind fun w found => ?_
    obtain ⟨walked, landed⟩ := found
    split_ifs with finished
    · have bit := landed.2 finished
      have next : w.bitOffset = k + 1 + countNested f.fieldType + 1 := by omega
      rw [next]
      have start : k + 1 + (fieldFlags f.fieldType (Json.get values f.name)).length
          = k + 1 + countNested f.fieldType + 1 := by
        rw [fieldFlags_length]
        omega
      rw [start] at otherBits
      refine (ih tail landed.1 behind otherBits others distinct.2.2).bind fun after later => ?_
      exact .pure (walked.cons finished later)
    · have stop : w.finished = false := by simpa using finished
      refine .pure ⟨fun _ given => ?_, by simp [stop], by simp [stop]⟩
      rw [walked.stopped stop, GivenFields] at given
      cases found : Json.get values f.name with
      | none => exact finished (walked.unnamed found).1
      | some j =>
        rw [found] at given
        obtain ⟨v, vs, impossible, -⟩ := given
        cases impossible

variable (ops isBe) in
/-- A field named in the input has a bit set. -/
def FlagsField (ft : FieldType) : Prop :=
  ∀ name j bytes, FieldEncodes ops isBe ft name (some j) bytes → (fieldFlags ft (some j)).any id = true

theorem namedFlags_any {fs : List FieldDesc} (each : ∀ f ∈ fs, FlagsField ops isBe f.fieldType)
    {values : List (String × Json)} {bytes : List UInt8} (encoded : FieldsEncode ops isBe fs values bytes)
    (named : ∃ f ∈ fs, (Json.get values f.name).isSome) : (namedFlags fs values).any id = true := by
  induction fs generalizing bytes with
  | nil =>
    obtain ⟨f, member, -⟩ := named
    cases member
  | cons f fs ih =>
    obtain ⟨head, tail⟩ := List.forall_mem_cons.mp each
    obtain ⟨bytes, rest, rfl, own, others⟩ := encoded
    rw [namedFlags, List.any_append, Bool.or_eq_true]
    obtain ⟨g, member, isSome⟩ := named
    rcases List.mem_cons.mp member with rfl | later
    · obtain ⟨j, found⟩ := Option.isSome_iff_exists.mp isSome
      rw [found] at own ⊢
      exact Or.inl (head g.name j bytes own)
    · exact Or.inr (ih tail others ⟨g, later, isSome⟩)

theorem flagsField (ft : FieldType) : FlagsField ops isBe ft := by
  induction ft with
  | struct desc each =>
    rintro name j bytes (⟨impossible, -⟩ | ⟨obj, same, named, inner⟩)
    · cases impossible
    · cases same
      exact namedFlags_any each inner named
  | _ => exact fun name j bytes _ => rfl

theorem walksField (ft : FieldType) : WalksField ops isBe data bitset counts ft := by
  induction ft with
  | struct desc each =>
    intro name offset k j bytes inside here bits encoded distinct
    have count : counts.getD k 0 = countFields desc.fields := by
      rw [List.getD_eq_getElem?_getD, here.own]
      rfl
    rcases encoded with ⟨rfl, rfl⟩ | ⟨obj, rfl, named, inner⟩
    · have bits : BitsAre bitset (k + 1) (false :: List.replicate (countFields desc.fields) false) := bits
      have length : (List.replicate (countFields desc.fields) false).length = countFields desc.fields :=
        List.length_replicate
      rw [walkField_structure (count.trans length.symm) bits.2, if_neg (by simp [bits.1]), if_neg (by simp)]
      exact .pure ⟨fun _ => ⟨rfl, rfl, rfl, rfl⟩, by simp, by simp⟩
    · have bits : BitsAre bitset (k + 1) (false :: namedFlags desc.fields obj) := bits
      have length : (namedFlags desc.fields obj).length = countFields desc.fields :=
        namedFlags_length (fun f _ => fieldFlags_length f.fieldType) obj
      have any := namedFlags_any (fun f _ => flagsField f.fieldType) inner named
      obtain ⟨more, below⟩ := here.below
      rw [walkField_structure (count.trans length.symm) bits.2, if_neg (by simp [bits.1]), if_pos any]
      refine (walkFields_walked each inside below bits.2 inner distinct).bind fun w walked => ?_
      by_cases finished : w.finished
      · rw [if_pos finished]
        have filled := walked.filled finished named
        have reported : (if w.fields.isEmpty then [] else [(name, DecodedValue.structure w.fields)])
            = [(name, .structure w.fields)] := if_neg (by simpa using filled)
        refine .pure ⟨by simp, by simp [finished], fun _ i same => ⟨.structure w.fields, reported, ?_⟩⟩
        cases same
        rintro ⟨obj', vs, same, same', given⟩
        cases same
        cases same'
        obtain ⟨least, carry⟩ := walked.reported finished given
        refine ⟨least, fun exactly k same => ?_⟩
        cases same
        exact ⟨obj, rfl, carry exactly⟩
      · rw [if_neg finished]
        exact .pure ⟨by simp, fun _ => rfl, by simp [finished]⟩
  | _ => exact leaf_walksField rfl

end

end Spvirit.Client
