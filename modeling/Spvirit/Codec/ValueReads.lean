import Spvirit.Codec.DescReads
import Spvirit.Codec.EncodeValue

/-! Values of each type read back from their bytes. -/

namespace Spvirit

open ByteOrder Fallible

def DecodedValue.scalarCode : DecodedValue → Option TypeCode
  | .boolean _ => some .boolean
  | .int8 _ => some .int8
  | .int16 _ => some .int16
  | .int32 _ => some .int32
  | .int64 _ => some .int64
  | .uint8 _ => some .uint8
  | .uint16 _ => some .uint16
  | .uint32 _ => some .uint32
  | .uint64 _ => some .uint64
  | .float32 _ => some .float32
  | .float64 _ => some .float64
  | _ => none

/-- The natural a scalar's bytes stand for. -/
def DecodedValue.word : DecodedValue → Nat
  | .boolean v => if v then 1 else 0
  | .int8 v => v.toUInt8.toNat
  | .int16 v => v.toUInt16.toNat
  | .int32 v => v.toUInt32.toNat
  | .int64 v => v.toUInt64.toNat
  | .uint8 v => v.toNat
  | .uint16 v => v.toNat
  | .uint32 v => v.toNat
  | .uint64 v => v.toNat
  | .float32 v => v.bits.toNat
  | .float64 v => v.bits.toNat
  | _ => 0

theorem toBytes_byte (isBe : Bool) (b : UInt8) : toBytes isBe 1 b.toNat = [b] := by
  cases isBe <;> simp [toBytes, leBytes]

/-- A scalar is written as its word in the width of its type, and the word gives it back. -/
theorem scalar_word {v : DecodedValue} {tc : TypeCode} (code : v.scalarCode = some tc) :
    ∃ size, tc.size = some size ∧ v.word < 256 ^ size ∧ scalarOfNat tc v.word = some v ∧
      ∀ isBe, pushDecodedValue isBe v = toBytes isBe size v.word := by
  cases v <;> simp only [DecodedValue.scalarCode, Option.some.injEq, reduceCtorEq] at code <;> subst code
  case boolean v =>
    refine ⟨1, rfl, ?_, ?_, fun isBe => ?_⟩ <;> cases v
    all_goals first | decide | rfl | exact (toBytes_byte isBe _).symm
  case int8 v | uint8 v =>
    exact ⟨1, rfl, UInt8.toNat_lt _, by simp [scalarOfNat, DecodedValue.word], fun isBe => (toBytes_byte isBe _).symm⟩
  case int16 v | uint16 v => exact ⟨2, rfl, UInt16.toNat_lt _, by simp [scalarOfNat, DecodedValue.word], fun _ => rfl⟩
  case int32 v | uint32 v | float32 v =>
    exact ⟨4, rfl, UInt32.toNat_lt _, by simp [scalarOfNat, DecodedValue.word], fun _ => rfl⟩
  case int64 v | uint64 v | float64 v =>
    exact ⟨8, rfl, UInt64.toNat_lt _, by simp [scalarOfNat, DecodedValue.word], fun _ => rfl⟩

namespace PvdDecoder

variable {dec : PvdDecoder} {levels fuel nodes n m : Nat}

/-- The bytes read as `v` at the type, with `fuel` levels of nesting to spare. -/
def ReadsAs (dec : PvdDecoder) (fuel nodes : Nat) (ft : FieldType) (bytes : List UInt8) (v : DecodedValue) : Prop :=
  dec.Reads fuel nodes (fun data => dec.decodeValueFuel fuel data ft) bytes v

variable {bytes : List UInt8} {v : DecodedValue}

theorem ReadsAs.level {ft : FieldType}
    (reads : dec.Reads fuel nodes (fun data => dec.decodeValueWith (dec.decodeValueFuel fuel) data ft) bytes v) :
    dec.ReadsAs (fuel + 1) nodes ft bytes v :=
  fun rest nonempty => (reads rest nonempty).enter.scope

theorem decodeScalar_push {tc : TypeCode} {rest : List UInt8} (code : v.scalarCode = some tc) :
    dec.decodeScalar (pushDecodedValue dec.isBe v ++ rest) tc = .ok (v, (pushDecodedValue dec.isBe v).length) := by
  obtain ⟨size, width, fits, scalar, bytes⟩ := scalar_word code
  rw [bytes, toBytes_length]
  exact decodeScalar_toBytes width fits scalar

theorem readsAs_scalar {tc : TypeCode} (code : v.scalarCode = some tc) :
    dec.ReadsAs (fuel + 1) 0 (.scalar tc) (pushDecodedValue dec.isBe v) v :=
  .level fun _ _ => .ofExcept (decodeScalar_push code)

theorem readsAs_string {s : String} (short : Short s) :
    dec.ReadsAs (fuel + 1) 0 .string (pushString s dec.isBe) (.string s) :=
  .level fun rest nonempty => (reads_string dec fuel short rest nonempty).bindFree .pure

theorem readsAs_array {ft : FieldType} {item : List UInt8 → Nat → DecodeM (DecodedValue × Nat)} {minElem limit : Nat}
    {kind : String} {items : List DecodedValue}
    (array : ∀ data, dec.decodeValueWith (dec.decodeValueFuel fuel) data ft
      = dec.decodeArray data minElem kind limit (item data))
    (small : items.length < 2 ^ 32) (within : items.length ≤ limit)
    (wide : ∀ v ∈ items, minElem ≤ (pushDecodedValue dec.isBe v).length)
    (each : ∀ v ∈ items, ∀ data offset rest, rest ≠ [] → data.drop offset = pushDecodedValue dec.isBe v ++ rest →
      dec.Yields fuel 0 (item data offset) (v, offset + (pushDecodedValue dec.isBe v).length)) :
    dec.ReadsAs (fuel + 1) 0 ft (pushDecodedValue dec.isBe (.array items)) (.array items) := by
  have reads := @reads_array dec _ fuel item id _ (fun _ => 0) _ _ kind items small within wide each
  refine .level fun rest nonempty => ?_
  simpa [array, pushDecodedValue] using reads rest nonempty

theorem readsAs_scalarArray {items : List DecodedValue} {tc : TypeCode}
    (codes : ∀ v ∈ items, v.scalarCode = some tc) (small : items.length < 2 ^ 32)
    (within : items.length ≤ dec.limits.maxScalarArray) :
    dec.ReadsAs (fuel + 1) 0 (.scalarArray tc) (pushDecodedValue dec.isBe (.array items)) (.array items) := by
  refine readsAs_array (fun _ => rfl) small within (fun v member => ?_) fun v member data offset rest _ here => ?_
  · obtain ⟨size, width, -, -, bytes⟩ := scalar_word (codes v member)
    simp [width, bytes]
  · rw [here]
    exact (Yields.ofExcept (decodeScalar_push (codes v member))).bindFree .pure

theorem readsAs_stringArray {strings : List String} (short : ∀ s ∈ strings, Short s)
    (small : strings.length < 2 ^ 32) (within : strings.length ≤ dec.limits.maxStringArray) :
    dec.ReadsAs (fuel + 1) 0 .stringArray (pushDecodedValue dec.isBe (.array (strings.map .string)))
      (.array (strings.map .string)) := by
  have isString : ∀ v ∈ strings.map DecodedValue.string, ∃ s, Short s ∧ v = .string s := fun v member => by
    obtain ⟨s, given, rfl⟩ := List.mem_map.mp member
    exact ⟨s, short s given, rfl⟩
  refine readsAs_array (fun _ => rfl) (by simpa using small) (by simpa using within) (fun v member => ?_)
    fun v member data offset rest nonempty here => ?_
  · obtain ⟨s, -, rfl⟩ := isString v member
    have := @pushSize_length_pos (utf8 s).length dec.isBe
    simp only [pushDecodedValue, pushString, List.length_append]
    omega
  · obtain ⟨s, small, rfl⟩ := isString v member
    rw [here]
    exact (reads_string dec fuel small rest nonempty).bindFree .pure

section

variable {decodeValue : List UInt8 → FieldType → DecodeM (DecodedValue × Nat)}

variable (dec levels decodeValue) in
/-- The fields of a structure, each of which reads back from its own bytes. -/
inductive FieldsRead : List FieldDesc → List (String × DecodedValue) → List UInt8 → Nat → Prop
  | nil : FieldsRead [] [] [] 0
  | cons {f : FieldDesc} {v : DecodedValue} {bytes bs : List UInt8} {fs : List FieldDesc}
      {vs : List (String × DecodedValue)} {n m : Nat} :
      dec.Reads levels n (fun data => decodeValue data f.fieldType) bytes v → FieldsRead fs vs bs m →
      FieldsRead (f :: fs) ((f.name, v) :: vs) (bytes ++ bs) (n + m)

theorem FieldsRead.decodeFields {fs : List FieldDesc} {vs : List (String × DecodedValue)}
    {bytes data rest : List UInt8} {offset : Nat} (reads : FieldsRead dec levels decodeValue fs vs bytes n)
    (nonempty : rest ≠ []) (here : data.drop offset = bytes ++ rest) :
    dec.Yields levels n (decodeFields decodeValue data fs offset) (vs, offset + bytes.length) := by
  induction reads generalizing offset with
  | nil => exact .pure
  | @cons f v bytes bs fs vs n m head tail ih =>
    have split : data.drop offset = bytes ++ (bs ++ rest) := by simpa using here
    have inside : ¬ data.length ≤ offset := fun past => by
      rw [List.drop_eq_nil_of_le past] at split
      simp [nonempty] at split
    have next : data.drop (offset + bytes.length) = bs ++ rest := by rw [← List.drop_drop, split, List.drop_left]
    have first := head (bs ++ rest) (by simp [nonempty])
    rw [← split] at first
    rw [PvdDecoder.decodeFields, if_neg inside]
    refine first.attempt.bind ((ih next).bindThen ?_)
    rw [Nat.add_assoc, ← List.length_append]
    exact .pure

theorem FieldsRead.structure {desc : StructureDesc} {vs : List (String × DecodedValue)} {bytes : List UInt8}
    (reads : FieldsRead dec levels decodeValue desc.fields vs bytes n) :
    dec.Reads levels n (fun data => dec.decodeStructureWith decodeValue data desc) bytes (.structure vs) := by
  intro rest nonempty
  have fields := reads.decodeFields nonempty (List.drop_zero : (bytes ++ rest).drop 0 = bytes ++ rest)
  rw [Nat.zero_add] at fields
  refine Yields.scope (fields.bindThen ?_)
  exact .pure

end

theorem readsAs_structure {desc : StructureDesc} {vs : List (String × DecodedValue)}
    (reads : FieldsRead dec fuel (dec.decodeValueFuel fuel) desc.fields vs bytes n) :
    dec.ReadsAs (fuel + 1) n (.structure desc) bytes (.structure vs) :=
  .level reads.structure

/-- A structure array whose elements are all there, behind a nonzero null indicator. -/
theorem readsAs_structureArray {α : Type} {desc : StructureDesc} {xs : List α} {fields : α → List (String × DecodedValue)}
    {body : α → List UInt8} {cost : α → Nat} (small : xs.length < 2 ^ 32)
    (within : xs.length ≤ dec.limits.maxStructArray)
    (each : ∀ x ∈ xs, FieldsRead dec fuel (dec.decodeValueFuel fuel) desc.fields (fields x) (body x) (cost x)) :
    dec.ReadsAs (fuel + 1) (xs.map cost).sum (.structureArray desc)
      (pushSize xs.length dec.isBe ++ xs.flatMap fun x => 1 :: body x)
      (.array (xs.map fun x => .structure (fields x))) := by
  refine .level (reads_array xs small within (by simp) fun x member data offset rest nonempty here => ?_)
  have present : data[offset]? = some 1 := by
    have := congrArg (fun l : List UInt8 => l[0]?) here
    simpa using this
  have next : data.drop (offset + 1) = body x ++ rest := by
    rw [← List.drop_drop, here]
    rfl
  have element := (each x member).structure rest nonempty
  rw [← next] at element
  rw [structureItem, present]
  refine element.bindThen ?_
  have length : offset + (1 :: body x).length = offset + 1 + (body x).length := by
    rw [List.length_cons]
    omega
  rw [length]
  exact .pure

theorem unionItem_yields {fs : List FieldDesc} {selector : Nat} {field : FieldDesc} {data rest : List UInt8}
     {offset : Nat} (small : selector < 2 ^ 32) (selected : fs[selector]? = some field)
    (reads : dec.Yields fuel n (dec.decodeValueFuel fuel (bytes ++ rest) field.fieldType) (v, bytes.length))
    (here : data.drop offset = pushSize selector dec.isBe ++ bytes ++ rest) :
    dec.Yields fuel n (dec.unionItem (dec.decodeValueFuel fuel) data fs offset)
      (.structure [(field.name, v)], offset + (pushSize selector dec.isBe ++ bytes).length) := by
  have size := readsAlways_size dec fuel small (bytes ++ rest)
  rw [← List.append_assoc, ← here] at size
  have choice : selectField fs selector = .ok field := by rw [selectField, selected]
  have next : data.drop (offset + (pushSize selector dec.isBe).length) = bytes ++ rest := by
    rw [← List.drop_drop, here, List.append_assoc, List.drop_left]
  refine size.bindFree ((Yields.ofExcept choice).bindFree ?_)
  dsimp only
  rw [next]
  refine reads.bindThen ?_
  rw [List.length_append, ← Nat.add_assoc]
  exact .pure

theorem readsAs_union {fs : List FieldDesc} {selector : Nat} {field : FieldDesc}
    (small : selector < 2 ^ 32) (selected : fs[selector]? = some field)
    (reads : dec.ReadsAs fuel n field.fieldType bytes v) :
    dec.ReadsAs (fuel + 1) n (.union fs) (pushSize selector dec.isBe ++ bytes) (.structure [(field.name, v)]) := by
  refine .level fun rest nonempty => ?_
  have item := unionItem_yields small selected (reads rest nonempty) (@List.drop_zero _ (_ ++ rest))
  rwa [Nat.zero_add] at item

theorem readsAs_variant_null : dec.ReadsAs (fuel + 1) 0 .variant [0xFF] .null :=
  .level fun _ _ => .pure

/-- A variant carries the descriptor of its type, which counts against the node budget. -/
theorem readsAs_variant {ft : FieldType}
    (expressible : Expressible dec.limits ft) (deep : typeHeight ft ≤ fuel) (limit : fuel ≤ dec.limits.maxDepth)
    (reads : dec.ReadsAs fuel n ft bytes v) :
    dec.ReadsAs (fuel + 1) (typeNodes ft + n) .variant (encodeTypeDesc dec.isBe ft ++ bytes) v := by
  refine .level fun rest nonempty => ?_
  have positive := typeHeight_pos ft
  obtain ⟨tag, tail, starts, notNull⟩ := encodeTypeDesc_head dec.isBe expressible
  have type : dec.Reads fuel (typeNodes ft) (dec.parseTypeDesc dec.limits.maxDepth) (encodeTypeDesc dec.isBe ft) ft := by
    have at' := (parseTypeDesc_reads ft expressible (dec.limits.maxDepth - 1) (fuel - 1) (by omega) (by omega)).reads
    rwa [Nat.sub_add_cancel (by omega), Nat.sub_add_cancel (by omega)] at at'
  have head : ∀ data, encodeTypeDesc dec.isBe ft ++ data ≠ [] ∧ ∀ more, encodeTypeDesc dec.isBe ft ++ data ≠ 0xFF :: more :=
    fun data => by simp [starts, notNull]
  rw [List.append_assoc]
  simp only [decodeValueWith]
  unfold variantValue
  split
  · rename_i empty
    exact absurd empty (head _).1
  · rename_i null
    exact absurd null ((head _).2 _)
  · refine (type _ (by simp [nonempty])).bind (Yields.note.bindFree ?_)
    simp only [List.drop_left]
    refine (reads rest nonempty).bindThen ?_
    rw [List.length_append]
    exact .pure

end PvdDecoder

end Spvirit
