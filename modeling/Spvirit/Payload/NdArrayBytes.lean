import Spvirit.Payload.TreeBytes

/-! The value block of an NTNDArray, where a union, a variant and two structure arrays carry more than plain bytes. -/

namespace Spvirit

open PvdDecoder

variable {isBe : Bool} {fuel : Nat}

theorem Admissible.item {limits : DecodeLimits} {items : List DecodedValue} (fits : Admissible limits (.array items)) :
    ∀ x ∈ items, Admissible limits x := fun _ member =>
  ⟨fun items occurs => fits.arrays items (.item member occurs), fun s occurs => fits.strings s (.item member occurs)⟩

theorem fieldsRead_of_hasType {fs : List FieldDesc} {vs : List (String × DecodedValue)}
    (flat : ∀ f ∈ fs, f.fieldType.isStructure = false) (typed : FieldsHaveType fs vs)
    (fits : ∀ f ∈ vs, Admissible .default f.2) :
    FieldsRead (new isBe) (fuel + 1) ((new isBe).decodeValueFuel (fuel + 1)) fs vs
      (vs.flatMap fun f => pushDecodedValue isBe f.2) 0 := by
  induction fs generalizing vs with
  | nil =>
    cases vs with
    | nil => exact .nil
    | cons => exact typed.elim
  | cons f fs ih =>
    cases vs with
    | nil => exact typed.elim
    | cons v vs =>
      obtain ⟨name, value⟩ := v
      obtain ⟨rfl, type, others⟩ := typed
      have head : (new isBe).ReadsAs (fuel + 1) 0 f.fieldType (pushDecodedValue isBe value) value :=
        readsAs_of_hasType (flat f List.mem_cons_self) type (fits _ List.mem_cons_self)
      have tail := ih (fun g member => flat g (List.mem_cons_of_mem f member)) others
        fun g member => fits g (List.mem_cons_of_mem _ member)
      exact .cons head tail

theorem union_field (v : ScalarArrayValue) : ntNdarrayValueUnionFields[ndarrayUnionIndex v]?
    = some ⟨ndarrayUnionFieldName v, scalarArrayFieldType v⟩ := by
  cases v <;> rfl

theorem scalarArray_leaf (v : ScalarArrayValue) : (scalarArrayFieldType v).isStructure = false := by cases v <;> rfl

theorem readsAs_ndValue (v : ScalarArrayValue) (fits : Admissible .default (dvScalarArray v)) :
    (new isBe).ReadsAs (fuel + 2) 0 (.union ntNdarrayValueUnionFields)
      (pushSize (ndarrayUnionIndex v) isBe ++ pushScalarArrayValue isBe v)
      (.structure [(ndarrayUnionFieldName v, dvScalarArray v)]) := by
  have small : ndarrayUnionIndex v < 2 ^ 32 := by cases v <;> norm_num [ndarrayUnionIndex]
  have array : (new isBe).ReadsAs (fuel + 1) 0 (scalarArrayFieldType v) (pushDecodedValue isBe (dvScalarArray v))
      (dvScalarArray v) :=
    readsAs_of_hasType (scalarArray_leaf v) (hasType_dvScalarArray v) fits
  rw [push_dvScalarArray] at array
  exact readsAs_union small (union_field v) array

theorem structures_within {α : Type} {xs : List α} {fields : α → List (String × DecodedValue)}
    (fits : Admissible .default (.array (xs.map fun x => .structure (fields x)))) :
    xs.length ≤ DecodeLimits.default.maxStructArray := by
  have within := fits.arrays _ .here
  rw [List.length_map] at within
  cases xs with
  | nil => exact Nat.zero_le _
  | cons => exact within

theorem push_dimensionFields (d : NdDimension) :
    (dimensionFields d).flatMap (fun f => pushDecodedValue isBe f.2) = pushDimension isBe d := by
  simp [dimensionFields, pushDimension, pushDecodedValue, encodeI32, encodeBool]

theorem readsAs_dimensions (dimension : List NdDimension) (fits : Admissible .default (dvDimensions dimension)) :
    (new isBe).ReadsAs (fuel + 2) 0 (.structureArray dimensionDesc)
      (pushSize dimension.length isBe ++ dimension.flatMap fun d => 1 :: pushDimension isBe d) (dvDimensions dimension) := by
  have within := structures_within fits
  have small : dimension.length < 2 ^ 32 := lt_of_le_of_lt within (by decide)
  have reads := @readsAs_structureArray (new isBe) (fuel + 1) _ dimensionDesc dimension dimensionFields
    (pushDimension isBe) (fun _ => 0) small within fun d member => by
      have element := fits.item _ (List.mem_map_of_mem member)
      rw [← push_dimensionFields d]
      exact fieldsRead_of_hasType (by decide) ⟨rfl, rfl, rfl, rfl, rfl, rfl, rfl, rfl, rfl, rfl, trivial⟩ element.field
  have free : (dimension.map fun _ => 0).sum = 0 := by simp
  rw [free] at reads
  exact reads

theorem encodeTypeDesc_scalar (v : ScalarValue) :
    encodeTypeDesc isBe (scalarFieldType v) = [(scalarValueTypeCode v).toByte] := by
  cases v <;> rfl

theorem expressible_scalar (limits : DecodeLimits) (v : ScalarValue) : Expressible limits (scalarFieldType v) := by
  cases v <;> trivial

theorem readsAs_attributeVariant (v : ScalarValue) (fits : Admissible .default (dvScalar v))
    (deep : fuel + 1 ≤ (new isBe).limits.maxDepth) :
    (new isBe).ReadsAs (fuel + 2) 1 .variant (encodeAttributeVariant isBe v) (dvScalar v) := by
  have leaf : (scalarFieldType v).isStructure = false := by cases v <;> rfl
  have nodes : typeNodes (scalarFieldType v) = 1 := by cases v <;> rfl
  have height : typeHeight (scalarFieldType v) = 1 := by cases v <;> rfl
  have scalar : (new isBe).ReadsAs (fuel + 1) 0 (scalarFieldType v) (pushDecodedValue isBe (dvScalar v)) (dvScalar v) :=
    readsAs_of_hasType leaf (hasType_dvScalar v) fits
  have reads := readsAs_variant (expressible_scalar _ v) (by omega) deep scalar
  rw [nodes, push_dvScalar] at reads
  have tagged : encodeTypeDesc (new isBe).isBe (scalarFieldType v) = _ := encodeTypeDesc_scalar v
  rw [tagged] at reads
  exact reads

theorem fieldsRead_attribute (a : NtAttribute) (fits : ∀ f ∈ attributeFields a, Admissible .default f.2)
    (deep : fuel + 1 ≤ (new isBe).limits.maxDepth) :
    FieldsRead (new isBe) (fuel + 2) ((new isBe).decodeValueFuel (fuel + 2)) attributeDesc.fields (attributeFields a)
      (pushAttribute isBe a) 1 := by
  have name : (new isBe).ReadsAs (fuel + 2) 0 .string (pushString a.name isBe) (.string a.name) :=
    readsAs_string ((fits ("name", .string a.name) (by simp [attributeFields])).strings _ .here)
  have value : (new isBe).ReadsAs (fuel + 2) 1 .variant (encodeAttributeVariant isBe a.value) (dvScalar a.value) :=
    readsAs_attributeVariant a.value (fits ("value", dvScalar a.value) (List.mem_cons_of_mem _ List.mem_cons_self)) deep
  have others : FieldsRead (new isBe) (fuel + 2) ((new isBe).decodeValueFuel (fuel + 2)) (attributeDesc.fields.drop 2)
      ((attributeFields a).drop 2) (((attributeFields a).drop 2).flatMap fun f => pushDecodedValue isBe f.2) 0 :=
    fieldsRead_of_hasType (by decide) ⟨rfl, ⟨_, rfl⟩, rfl, rfl, rfl, ⟨_, rfl⟩, trivial⟩
      fun f member => fits f (List.mem_of_mem_drop member)
  have bytes : pushAttribute isBe a = pushString a.name isBe ++ (encodeAttributeVariant isBe a.value ++
      ((attributeFields a).drop 2).flatMap fun f => pushDecodedValue isBe f.2) := by
    simp [pushAttribute, attributeFields, pushDecodedValue, encodeI32]
  have variant : FieldsRead (new isBe) (fuel + 2) ((new isBe).decodeValueFuel (fuel + 2)) (attributeDesc.fields.drop 1)
      ((attributeFields a).drop 1) _ (1 + 0) := @FieldsRead.cons _ _ _ ⟨"value", .variant⟩ _ _ _ _ _ _ _ value others
  rw [bytes]
  exact @FieldsRead.cons _ _ _ ⟨"name", .string⟩ _ _ _ _ _ _ _ name variant

theorem readsAs_attributes (attributes : List NtAttribute) (fits : Admissible .default (dvAttributes attributes))
    (deep : fuel + 1 ≤ (new isBe).limits.maxDepth) :
    (new isBe).ReadsAs (fuel + 3) attributes.length (.structureArray attributeDesc)
      (pushSize attributes.length isBe ++ attributes.flatMap fun a => 1 :: pushAttribute isBe a)
      (dvAttributes attributes) := by
  have within := structures_within fits
  have small : attributes.length < 2 ^ 32 := lt_of_le_of_lt within (by decide)
  have reads := @readsAs_structureArray (new isBe) (fuel + 2) _ attributeDesc attributes attributeFields
    (pushAttribute isBe) (fun _ => 1) small within fun a member =>
      fieldsRead_attribute a (fits.item _ (List.mem_map_of_mem member)).field deep
  have nodes : (attributes.map fun _ => 1).sum = attributes.length := by simp
  rw [nodes] at reads
  exact reads

theorem StringMap.length_sortedKeys (m : StringMap) : m.sortedKeys.length = m.entries.length := by
  simp [StringMap.sortedKeys, StringMap.keys]

theorem parameters_hasType (keys : List String) (value : String → String) :
    FieldsHaveType (keys.map fun key => ⟨key, .string⟩) (keys.map fun key => (key, .string (value key))) := by
  induction keys with
  | nil => trivial
  | cons key keys ih => exact ⟨rfl, ⟨_, rfl⟩, ih⟩

theorem parameters_expressible (limits : DecodeLimits) {keys : List String} (short : ∀ key ∈ keys, Short key) :
    FieldsExpressible limits (keys.map fun key => ⟨key, .string⟩) := by
  induction keys with
  | nil => trivial
  | cons key keys ih =>
    exact ⟨short key List.mem_cons_self, trivial, ih fun k member => short k (List.mem_cons_of_mem key member)⟩

theorem strings_height_nodes (keys : List String) :
    fieldsHeight (keys.map fun key => ⟨key, .string⟩) ≤ 1 ∧
      fieldsNodes (keys.map fun key => ⟨key, .string⟩) = keys.length := by
  induction keys with
  | nil => exact ⟨Nat.zero_le 1, rfl⟩
  | cons key keys ih =>
    simp only [List.map_cons, fieldsHeight, fieldsNodes, typeHeight, typeNodes, List.length_cons]
    omega

def parameterNodes (parameters : StringMap) : Nat := if parameters.entries.isEmpty then 0 else 1 + parameters.entries.length

theorem readsAs_parameters (parameters : StringMap) (fits : Admissible .default (dvCodecParameters parameters))
    (short : ∀ key ∈ parameters.keys, Short key) (few : parameters.entries.length ≤ DecodeLimits.default.maxStructFields)
    (deep : fuel + 2 ≤ (new isBe).limits.maxDepth) :
    (new isBe).ReadsAs (fuel + 3) (parameterNodes parameters) .variant (encodeCodecParameters isBe parameters)
      (dvCodecParameters parameters) := by
  unfold parameterNodes encodeCodecParameters
  unfold dvCodecParameters at fits ⊢
  split
  case isTrue => exact readsAs_variant_null
  case isFalse some =>
    rw [if_neg some] at fits
    have length := parameters.length_sortedKeys
    have sorted : ∀ key ∈ parameters.sortedKeys, Short key := fun key member =>
      short key (List.mem_mergeSort.mp member)
    obtain ⟨height, nodes⟩ := strings_height_nodes parameters.sortedKeys
    have expressible : Expressible (new isBe).limits (.structure (parametersDesc parameters)) := by
      refine ⟨by simp [parametersDesc], by simp [parametersDesc, Short], ?_, ?_, parameters_expressible _ sorted⟩
      · rw [parametersDesc, List.length_map, length]
        exact few
      · rw [parametersDesc, List.length_map, length]
        exact lt_of_le_of_lt few (by decide)
    have values : (new isBe).ReadsAs (fuel + 2) 0 (.structure (parametersDesc parameters))
        ((parameterFields parameters).flatMap fun f => pushDecodedValue isBe f.2)
        (.structure (parameterFields parameters)) :=
      readsAs_structure (fieldsRead_of_hasType (by simp [parametersDesc, FieldType.isStructure])
        (parameters_hasType _ _) fits.field)
    have deepEnough : typeHeight (.structure (parametersDesc parameters)) ≤ fuel + 2 := by
      simp only [typeHeight, parametersDesc]
      omega
    have reads := readsAs_variant expressible deepEnough deep values
    have bytes : (parameterFields parameters).flatMap (fun f => pushDecodedValue isBe f.2)
        = parameters.sortedKeys.flatMap fun key => pushString ((parameters.get key).getD "") isBe := by
      simp [parameterFields, List.flatMap_map, pushDecodedValue]
    have cost : typeNodes (.structure (parametersDesc parameters)) = 1 + parameters.entries.length := by
      rw [typeNodes, parametersDesc, nodes, length]
    rw [bytes, cost] at reads
    exact reads

/-- With every bit set the value block of an NTNDArray carries its tree. The nodes are those of the variants. -/
theorem marked_ndArray (nt : NtNdArray) (fits : ∀ f ∈ dvNtNdarrayFields nt, Admissible .default f.2)
    (short : ∀ key ∈ nt.codec.parameters.keys, Short key)
    (few : nt.codec.parameters.entries.length ≤ DecodeLimits.default.maxStructFields) :
    Marked (new isBe) ntNdarrayDesc.fields (List.replicate (countFields ntNdarrayDesc.fields) true) (dvNtNdarrayFields nt)
      (pushNtNdarrayFull isBe nt) (parameterNodes nt.codec.parameters + nt.attributes.length) := by
  have at_ : ∀ i (inside : i < 12), Admissible .default ((dvNtNdarrayFields nt).get ⟨i, inside⟩).2 :=
    fun i inside => fits _ (List.get_mem _ _)
  have value : (new isBe).ReadsAs 32 0 _ _ _ := readsAs_ndValue nt.value ((at_ 0 (by norm_num)).field _ List.mem_cons_self)
  have codec := (at_ 1 (by norm_num)).field
  have name : (new isBe).ReadsAs 32 0 .string (pushString nt.codec.name isBe) (.string nt.codec.name) :=
    readsAs_string ((codec _ List.mem_cons_self).strings _ .here)
  have parameters : (new isBe).ReadsAs 32 _ _ _ _ := readsAs_parameters nt.codec.parameters
    (codec _ (List.mem_cons_of_mem _ List.mem_cons_self)) short few (Nat.le_succ 31)
  have dimension : (new isBe).ReadsAs 32 0 _ _ _ := readsAs_dimensions nt.dimension (at_ 4 (by norm_num))
  have attributes : (new isBe).ReadsAs 32 _ _ _ _ :=
    readsAs_attributes nt.attributes (at_ 7 (by norm_num)) (by change 30 ≤ 32; norm_num)
  have last : Marked (new isBe) (ntNdarrayDesc.fields.drop 8) _ ((dvNtNdarrayFields nt).drop 8) _ 0 :=
    marked_all ⟨rfl, ⟨_, rfl⟩, rfl, hasType_dvAlarm _ _ _, rfl, hasType_dvNtTimestamp _, rfl, hasType_dvDisplay _, trivial⟩
      fun f member => fits f (List.mem_of_mem_drop member)
  have int32 : ∀ v, HasType (.scalar .int32) (.int32 v) := fun _ => rfl
  have int64 : ∀ v, HasType (.scalar .int64) (.int64 v) := fun _ => rfl
  have m7 := Marked.sent "attribute" rfl attributes last
  have m6 := marksAll _ "dataTimeStamp" (hasType_dvNtTimestamp nt.dataTimeStamp) (at_ 6 (by norm_num)) m7
  have m5 := marksAll _ "uniqueId" (int32 nt.uniqueId) (at_ 5 (by norm_num)) m6
  have m4 := Marked.sent "dimension" rfl dimension m5
  have m3 := marksAll _ "uncompressedSize" (int64 nt.uncompressedSize) (at_ 3 (by norm_num)) m4
  have m2 := marksAll _ "compressedSize" (int64 nt.compressedSize) (at_ 2 (by norm_num)) m3
  have inner : Marked (new isBe) codecDesc.fields _ _ _ _ := Marked.sent "name" rfl name (.sent "parameters" rfl parameters .nil)
  have m1 := Marked.walked "codec" true inner rfl m2
  have m0 := Marked.sent "value" rfl value m1
  refine m0.cast ?_ ?_
  · simp [pushNtNdarrayFull, dvNtNdarrayFields, pushDecodedValue, encodeI32, encodeI64]
  · simp

end Spvirit
