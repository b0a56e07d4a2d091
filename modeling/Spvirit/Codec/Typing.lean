import Spvirit.Codec.UpdateReads

/-! Values of a type, and what their plain bytes read as. -/

namespace Spvirit

/-- The value `v` stands somewhere in `w`. -/
inductive Occurs (v : DecodedValue) : DecodedValue → Prop
  | here : Occurs v v
  | item {x : DecodedValue} {items : List DecodedValue} : x ∈ items → Occurs v x → Occurs v (.array items)
  | field {f : String × DecodedValue} {fields : List (String × DecodedValue)} :
      f ∈ fields → Occurs v f.2 → Occurs v (.structure fields)

/-- What bounds the length of an array, by what its elements are. -/
def DecodeLimits.arrayLimit (limits : DecodeLimits) : List DecodedValue → Nat
  | .string _ :: _ => limits.maxStringArray
  | .structure _ :: _ => limits.maxStructArray
  | _ => limits.maxScalarArray

def ArraysWithin (limits : DecodeLimits) (w : DecodedValue) : Prop :=
  ∀ items, Occurs (.array items) w → items.length ≤ limits.arrayLimit items

def StringsShort (w : DecodedValue) : Prop := ∀ s, Occurs (.string s) w → PvdDecoder.Short s

/-- A value the decoder takes: its arrays within the limits, its strings short enough for their prefix. -/
structure Admissible (limits : DecodeLimits) (w : DecodedValue) : Prop where
  arrays : ArraysWithin limits w
  strings : StringsShort w

mutual

/-- The values whose plain bytes carry all of the type: no union, no variant, no array of structures. -/
def HasType : FieldType → DecodedValue → Prop
  | .scalar tc, v => v.scalarCode = some tc
  | .scalarArray tc, v => ∃ items, v = .array items ∧ ∀ x ∈ items, x.scalarCode = some tc
  | .string, v => ∃ s, v = .string s
  | .stringArray, v => ∃ strings : List String, v = .array (strings.map .string)
  | .structure desc, v => ∃ fields, v = .structure fields ∧ FieldsHaveType desc.fields fields
  | _, _ => False

def FieldsHaveType : List (FieldDescOf FieldType) → List (String × DecodedValue) → Prop
  | [], [] => True
  | f :: fs, v :: vs => v.1 = f.name ∧ HasType f.fieldType v.2 ∧ FieldsHaveType fs vs
  | _, _ => False

end

theorem Admissible.field {limits : DecodeLimits} {fields : List (String × DecodedValue)}
    (fits : Admissible limits (.structure fields)) :
    ∀ f ∈ fields, Admissible limits f.2 := fun _ member =>
  ⟨fun items occurs => fits.arrays items (.field member occurs), fun s occurs => fits.strings s (.field member occurs)⟩

namespace PvdDecoder

variable {isBe : Bool} {fuel : Nat}

theorem arrayLimit_small (items : List DecodedValue) : DecodeLimits.default.arrayLimit items < 2 ^ 32 := by
  unfold DecodeLimits.arrayLimit
  split <;> decide

theorem readsAs_of_hasType {ft : FieldType} {v : DecodedValue} (leaf : ft.isStructure = false) (typed : HasType ft v)
    (fits : Admissible .default v) : (new isBe).ReadsAs (fuel + 1) 0 ft (pushDecodedValue isBe v) v := by
  cases ft with
  | scalar tc => exact readsAs_scalar typed
  | scalarArray tc =>
    obtain ⟨items, rfl, codes⟩ := typed
    have within := fits.arrays items .here
    have small := arrayLimit_small items
    refine readsAs_scalarArray codes (by omega) ?_
    cases items with
    | nil => exact Nat.zero_le _
    | cons x xs =>
      have code := codes x List.mem_cons_self
      cases x <;> first | exact within | simp [DecodedValue.scalarCode] at code
  | string =>
    obtain ⟨s, rfl⟩ := typed
    exact readsAs_string (fits.strings s .here)
  | stringArray =>
    obtain ⟨strings, rfl⟩ := typed
    have within := fits.arrays _ .here
    have small := arrayLimit_small (strings.map .string)
    rw [List.length_map] at within
    refine readsAs_stringArray (fun s member => fits.strings s (.item (List.mem_map_of_mem member) .here)) (by omega) ?_
    cases strings with
    | nil => exact Nat.zero_le _
    | cons s strings => exact within
  | «structure» desc => simp [FieldType.isStructure] at leaf
  | _ => exact typed.elim

section

variable {fs : List FieldDesc} {vs : List (String × DecodedValue)}

/-- The bits of a field of the type and of all below it, before those of its siblings. -/
def MarksAll (isBe : Bool) (ft : FieldType) : Prop :=
  ∀ (name) {v fs flags vs bs m}, HasType ft v → Admissible .default v → Marked (new isBe) fs flags vs bs m →
    Marked (new isBe) (⟨name, ft⟩ :: fs) (true :: (List.replicate (countNested ft) true ++ flags)) ((name, v) :: vs)
      (pushDecodedValue isBe v ++ bs) m

theorem marked_of_each (each : ∀ f ∈ fs, MarksAll isBe f.fieldType) (typed : FieldsHaveType fs vs)
    (fits : ∀ f ∈ vs, Admissible .default f.2) :
    Marked (new isBe) fs (List.replicate (countFields fs) true) vs (vs.flatMap fun f => pushDecodedValue isBe f.2) 0 := by
  induction fs generalizing vs with
  | nil =>
    cases vs with
    | nil => exact .nil
    | cons v vs => exact typed.elim
  | cons f fs ih =>
    cases vs with
    | nil => exact typed.elim
    | cons v vs =>
      obtain ⟨name, value⟩ := v
      obtain ⟨rfl, type, others⟩ := typed
      have tail := ih (fun g member => each g (List.mem_cons_of_mem f member)) others
        fun g member => fits g (List.mem_cons_of_mem _ member)
      have bits : List.replicate (countFields (f :: fs)) true
          = true :: (List.replicate (countNested f.fieldType) true ++ List.replicate (countFields fs) true) := by
        rw [countFields, ← List.replicate_add, ← List.replicate_succ]
        congr 1
        omega
      rw [bits]
      exact each f List.mem_cons_self f.name type (fits _ List.mem_cons_self) tail

theorem marksAll (ft : FieldType) : MarksAll isBe ft := by
  have leaf : ∀ ft : FieldType, ft.isStructure = false → MarksAll isBe ft :=
    fun ft leaf name v fs flags vs bs m typed fits tail => by
      rw [countNested_of_leaf leaf]
      have reads : (new isBe).ReadsAs (new isBe).limits.maxDepth 0 ft (pushDecodedValue isBe v) v :=
        readsAs_of_hasType leaf typed fits
      have all : Marked (new isBe) (⟨name, ft⟩ :: fs) (true :: flags) ((name, v) :: vs) (pushDecodedValue isBe v ++ bs) (0 + m) :=
        .sent name leaf reads tail
      rwa [Nat.zero_add] at all
  induction ft with
  | struct desc ih =>
    intro name v fs flags vs bs m typed fits tail
    obtain ⟨fields, rfl, types⟩ := typed
    have inner := marked_of_each ih types fits.field
    rw [countNested, pushDecodedValue, pushDecodedFields_eq]
    rcases empty : desc.fields with _ | ⟨f, rest⟩
    · -- A structure without fields has a bit of its own and no bytes.
      rw [empty] at types
      cases fields with
      | cons => exact types.elim
      | nil =>
        have reads : (new isBe).Reads (new isBe).limits.maxDepth 0 (fun data => (new isBe).decodeStructure data desc) []
            (.structure []) := FieldsRead.structure (by rw [empty]; exact .nil)
        have all : Marked (new isBe) (⟨name, .structure desc⟩ :: fs) (true :: ([] ++ flags)) ((name, .structure []) :: vs)
            ([] ++ bs) (0 + m) := .whole name (by rw [empty]; rfl) rfl reads tail
        rwa [Nat.zero_add] at all
    · have bit : (List.replicate (countFields desc.fields) true).any id = true := by
        rw [empty, countFields, Nat.add_assoc, Nat.add_comm]
        simp [List.replicate_succ]
      have reported : nestedField name fields = [(name, .structure fields)] := by
        rw [empty] at types
        cases fields with
        | nil => exact types.elim
        | cons => rfl
      rw [← empty]
      have all : Marked (new isBe) (⟨name, .structure desc⟩ :: fs)
          (true :: (List.replicate (countFields desc.fields) true ++ flags)) (nestedField name fields ++ vs)
          ((fields.flatMap fun f => pushDecodedValue isBe f.2) ++ bs) (0 + m) := .walked name true inner bit tail
      rwa [reported, Nat.zero_add] at all
  | _ => exact leaf _ rfl

theorem marked_all (typed : FieldsHaveType fs vs) (fits : ∀ f ∈ vs, Admissible .default f.2) :
    Marked (new isBe) fs (List.replicate (countFields fs) true) vs (vs.flatMap fun f => pushDecodedValue isBe f.2) 0 :=
  marked_of_each (fun f _ => marksAll f.fieldType) typed fits

/-- The values of the type read back from their plain bytes, with a level of nesting for each of its own. -/
def ReadsBack (isBe : Bool) (ft : FieldType) : Prop :=
  ∀ {fuel v}, typeHeight ft ≤ fuel → HasType ft v → Admissible .default v →
    (new isBe).ReadsAs fuel 0 ft (pushDecodedValue isBe v) v

theorem fieldsRead_of_each (each : ∀ f ∈ fs, ReadsBack isBe f.fieldType) (deep : fieldsHeight fs ≤ fuel)
    (typed : FieldsHaveType fs vs) (fits : ∀ f ∈ vs, Admissible .default f.2) :
    FieldsRead (new isBe) fuel ((new isBe).decodeValueFuel fuel) fs vs
      (vs.flatMap fun f => pushDecodedValue isBe f.2) 0 := by
  induction fs generalizing vs with
  | nil =>
    cases vs with
    | nil => exact .nil
    | cons => exact typed.elim
  | cons f fs ih =>
    cases vs with
    | nil => exact typed.elim
    | cons v vs =>
      obtain ⟨name, value⟩ := v
      obtain ⟨rfl, type, others⟩ := typed
      rw [fieldsHeight, max_le_iff] at deep
      exact .cons (each f List.mem_cons_self deep.1 type (fits _ List.mem_cons_self))
        (ih (fun g member => each g (List.mem_cons_of_mem f member)) deep.2 others
          fun g member => fits g (List.mem_cons_of_mem _ member))

theorem readsBack (ft : FieldType) : ReadsBack isBe ft := by
  have leaf : ∀ ft : FieldType, ft.isStructure = false → ReadsBack isBe ft := by
    intro ft leaf fuel v deep typed fits
    obtain ⟨fuel, rfl⟩ := Nat.exists_eq_add_of_le' ((typeHeight_pos ft).trans_le deep)
    exact readsAs_of_hasType leaf typed fits
  induction ft with
  | struct desc ih =>
    intro fuel v deep typed fits
    obtain ⟨fields, rfl, types⟩ := typed
    obtain ⟨fuel, rfl⟩ := Nat.exists_eq_add_of_le' ((typeHeight_pos _).trans_le deep)
    rw [typeHeight] at deep
    rw [pushDecodedValue, pushDecodedFields_eq]
    exact readsAs_structure (fieldsRead_of_each ih (by omega) types fits.field)
  | _ => exact leaf _ rfl

/-- A structure within the limits decodes from its plain bytes to itself, and takes no byte more. -/
theorem decodeStructure_push (isBe : Bool) (desc : StructureDesc) (fields : List (String × DecodedValue))
    (rest : List UInt8) (deep : fieldsHeight desc.fields ≤ DecodeLimits.default.maxDepth)
    (typed : FieldsHaveType desc.fields fields) (fits : Admissible .default (.structure fields)) (more : rest ≠ []) :
    ((new isBe).decodeStructure (pushDecodedValue isBe (.structure fields) ++ rest) desc (new isBe).fresh).1 =
      .ok (.structure fields, (pushDecodedValue isBe (.structure fields)).length) := by
  rw [pushDecodedValue, pushDecodedFields_eq]
  have reads := @fieldsRead_of_each isBe _ _ _ (fun f _ => readsBack f.fieldType) deep typed fits.field
  have decoded := reads.decodeFields more (List.drop_zero : (_ ++ rest).drop 0 = _)
  rw [Nat.zero_add] at decoded
  exact scope_fresh (decoded.bindThen .pure) (Nat.zero_le _)

theorem decodeStructure_push_nested :
    let point : DecodedValue := .structure [("point", .structure [("x", .int32 7)])]
    ((new false).decodeStructure (pushDecodedValue false point ++ [1])
      ⟨none, [⟨"point", .structure ⟨none, [⟨"x", .scalar .int32⟩]⟩⟩]⟩ (new false).fresh).1 =
        .ok (point, (pushDecodedValue false point).length) := by
  have fits : Admissible .default (.structure [("point", .structure [("x", .int32 7)])]) := by
    constructor
    all_goals
      rintro _ (_ | _ | ⟨member, inside⟩)
      cases List.mem_singleton.mp member
      rcases inside with _ | _ | ⟨member, inside⟩
      cases List.mem_singleton.mp member
      cases inside
  exact decodeStructure_push false _ _ [1] (by simp [fieldsHeight, typeHeight, DecodeLimits.default])
    (by simp [FieldsHaveType, HasType, DecodedValue.scalarCode]) fits (by simp)

end

end PvdDecoder

end Spvirit
