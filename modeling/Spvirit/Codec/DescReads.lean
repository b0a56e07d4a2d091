import Spvirit.Codec.EncodeDesc
import Spvirit.Codec.Reads

/-! A type descriptor the limits allow is parsed back from its encoding. -/

namespace Spvirit.PvdDecoder

open Fallible

variable {dec : PvdDecoder} {levels fuel : Nat}

/-- A string whose length fits its size prefix. -/
def Short (s : String) : Prop := (utf8 s).length < 2 ^ 32

mutual

/-- What the parser can return: fixed-size scalars only, field lists within the limit. -/
def Expressible (limits : DecodeLimits) : FieldType → Prop
  | .scalar tc | .scalarArray tc => tc.size.isSome
  | .structure desc | .structureArray desc =>
    desc.structId ≠ some "" ∧ Short (desc.structId.getD "") ∧ desc.fields.length ≤ limits.maxStructFields ∧
      desc.fields.length < 2 ^ 32 ∧ FieldsExpressible limits desc.fields
  | .union fields | .unionArray fields =>
    fields.length ≤ limits.maxStructFields ∧ fields.length < 2 ^ 32 ∧ FieldsExpressible limits fields
  | _ => True

def FieldsExpressible (limits : DecodeLimits) : List (FieldDescOf FieldType) → Prop
  | [] => True
  | f :: fs => Short f.name ∧ Expressible limits f.fieldType ∧ FieldsExpressible limits fs

end

theorem encodeTypeDesc_ne_nil (isBe : Bool) (ft : FieldType) : encodeTypeDesc isBe ft ≠ [] := by
  cases ft <;> simp [encodeTypeDesc]

section

variable {parse : List UInt8 → DecodeM (FieldType × Nat)}

theorem parseFieldDesc_reads {f : FieldDesc} {nodes : Nat} (short : Short f.name)
    (type : dec.ReadsAlways levels nodes parse (encodeTypeDesc dec.isBe f.fieldType) f.fieldType) :
    dec.ReadsAlways levels nodes (dec.parseFieldDescWith parse)
      (pushString f.name dec.isBe ++ encodeTypeDesc dec.isBe f.fieldType) f := by
  intro rest
  have some : encodeTypeDesc dec.isBe f.fieldType ++ rest ≠ [] := by simp [encodeTypeDesc_ne_nil]
  have name := readsAlways_string dec levels short (encodeTypeDesc dec.isBe f.fieldType ++ rest)
  have here : (pushString f.name dec.isBe ++ encodeTypeDesc dec.isBe f.fieldType ++ rest).isEmpty = false := by
    simp [encodeTypeDesc_ne_nil]
  rw [parseFieldDescWith, fieldDescBody, here]
  simp only [Bool.false_eq_true, if_false]
  refine Yields.scope ?_
  rw [List.append_assoc]
  refine name.bindFree ?_
  simp only [List.drop_left]
  rw [if_neg (by have := List.length_pos_iff.mpr some; simp only [List.length_append] at this ⊢; omega)]
  refine (type rest).bindThen ?_
  rw [List.length_append]
  exact .pure

theorem parseFields_reads {fs : List FieldDesc} {data rest : List UInt8} {offset : Nat}
    (expressible : FieldsExpressible dec.limits fs)
    (types : ∀ f ∈ fs, Expressible dec.limits f.fieldType → dec.ReadsAlways levels (typeNodes f.fieldType) parse
      (encodeTypeDesc dec.isBe f.fieldType) f.fieldType)
    (here : data.drop offset = encodeFieldDescs dec.isBe fs ++ rest) :
    dec.Yields levels (fieldsNodes fs) (dec.parseFields parse data fs.length offset)
      (fs, offset + (encodeFieldDescs dec.isBe fs).length) := by
  induction fs generalizing offset with
  | nil => exact .pure
  | cons f fs ih =>
    obtain ⟨short, type, others⟩ := expressible
    have split : data.drop offset = (pushString f.name dec.isBe ++ encodeTypeDesc dec.isBe f.fieldType) ++
        (encodeFieldDescs dec.isBe fs ++ rest) := by
      simpa [encodeFieldDescs] using here
    have inside : ¬ data.length ≤ offset := fun past => by
      rw [List.drop_eq_nil_of_le past] at split
      simp [encodeTypeDesc_ne_nil] at split
    have next : data.drop (offset + (pushString f.name dec.isBe ++ encodeTypeDesc dec.isBe f.fieldType).length)
        = encodeFieldDescs dec.isBe fs ++ rest := by
      rw [← List.drop_drop, split, List.drop_left]
    have head := parseFieldDesc_reads short (types f List.mem_cons_self type)
      (encodeFieldDescs dec.isBe fs ++ rest)
    rw [← split] at head
    have tail := ih others (fun g member => types g (List.mem_cons_of_mem f member)) next
    rw [List.length_cons, parseFields, if_neg inside, fieldsNodes]
    refine head.attempt.bind (tail.bindThen ?_)
    rw [encodeFieldDescs, Nat.add_assoc, ← List.length_append]
    exact .pure

/-- The body of a structure descriptor; a union body is one without an id. -/
theorem parseStructureDesc_reads {desc : StructureDesc} (named : desc.structId ≠ some "")
    (short : Short (desc.structId.getD "")) (within : desc.fields.length ≤ dec.limits.maxStructFields)
    (small : desc.fields.length < 2 ^ 32) (expressible : FieldsExpressible dec.limits desc.fields)
    (types : ∀ f ∈ desc.fields, Expressible dec.limits f.fieldType → dec.ReadsAlways levels (typeNodes f.fieldType) parse
      (encodeTypeDesc dec.isBe f.fieldType) f.fieldType) :
    dec.ReadsAlways levels (fieldsNodes desc.fields) (dec.parseStructureDesc parse) (encodeStructureDesc dec.isBe desc) desc := by
  intro rest
  have id := readsAlways_string dec levels short
    (pushSize desc.fields.length dec.isBe ++ encodeFieldDescs dec.isBe desc.fields ++ rest)
  have count := readsAlways_size dec levels small (encodeFieldDescs dec.isBe desc.fields ++ rest)
  have layout : encodeStructureDesc dec.isBe desc ++ rest = pushString (desc.structId.getD "") dec.isBe ++
      (pushSize desc.fields.length dec.isBe ++ encodeFieldDescs dec.isBe desc.fields ++ rest) := by
    simp [encodeStructureDesc, descHeader]
  have here : (encodeStructureDesc dec.isBe desc ++ rest).drop
      ((pushString (desc.structId.getD "") dec.isBe).length + (pushSize desc.fields.length dec.isBe).length)
      = encodeFieldDescs dec.isBe desc.fields ++ rest := by
    rw [layout, ← List.drop_drop, List.drop_left, List.append_assoc, List.drop_left]
  have fields := parseFields_reads expressible types here
  have same : (if (desc.structId.getD "").isEmpty then none else some (desc.structId.getD "")) = desc.structId := by
    rcases given : desc.structId with _ | id
    · rfl
    · have : id ≠ "" := fun empty => named (by rw [given, empty])
      simp [this]
  rw [layout] at fields ⊢
  rw [← List.append_assoc] at count
  refine id.bindFree ?_
  simp only [List.drop_left]
  refine count.bindFree ?_
  simp only [if_neg (not_lt.mpr within)]
  refine fields.bindThen ?_
  have length : (encodeStructureDesc dec.isBe desc).length = (pushString (desc.structId.getD "") dec.isBe).length +
      (pushSize desc.fields.length dec.isBe).length + (encodeFieldDescs dec.isBe desc.fields).length := by
    simp [encodeStructureDesc, descHeader, Nat.add_assoc]
  simp only [same, ← length]
  exact .pure

theorem parseUnionDesc_reads {fs : List FieldDesc} (within : fs.length ≤ dec.limits.maxStructFields)
    (small : fs.length < 2 ^ 32) (expressible : FieldsExpressible dec.limits fs)
    (types : ∀ f ∈ fs, Expressible dec.limits f.fieldType → dec.ReadsAlways levels (typeNodes f.fieldType) parse
      (encodeTypeDesc dec.isBe f.fieldType) f.fieldType) :
    dec.ReadsAlways levels (fieldsNodes fs) (dec.parseStructureDesc parse) (encodeStructureDesc dec.isBe ⟨none, fs⟩)
      ⟨none, fs⟩ :=
  @parseStructureDesc_reads dec levels parse ⟨none, fs⟩ (by simp) (by simp [Short]) within small expressible types

/-- A descriptor that is no registry definition or reference is charged one node beside its own fields'. -/
theorem parseTypeDescWith_reads {tag : UInt8} {body : List UInt8} {ft : FieldType} {nodes : Nat}
    (literal : tag ≠ 0xFD ∧ tag ≠ 0xFE)
    (reads : dec.ReadsAlways levels nodes (dec.parseLiteral parse tag) (tag :: body) ft) :
    dec.ReadsAlways levels (1 + nodes) (dec.parseTypeDescWith parse) (tag :: body) ft := by
  intro rest
  unfold parseTypeDescWith
  split
  case h_1 empty => simp at empty
  case h_2 same => exact absurd (List.cons.inj same).1 literal.1
  case h_3 same => exact absurd (List.cons.inj same).1 literal.2
  case h_4 first tail _ _ same =>
    obtain ⟨rfl, -⟩ := List.cons.inj same
    rw [if_neg (by simp [literal])]
    exact Yields.charge.bind (Yields.note.bindFree (reads rest))

end

theorem typeHeight_le_fieldsHeight {fs : List FieldDesc} {f : FieldDesc} (member : f ∈ fs) :
    typeHeight f.fieldType ≤ fieldsHeight fs := by
  induction fs with
  | nil => simp at member
  | cons g fs ih =>
    rw [fieldsHeight]
    rcases List.mem_cons.mp member with rfl | member
    · exact le_max_left _ _
    · exact (ih member).trans (le_max_right _ _)

theorem scalar_tag {tc : TypeCode} (fixed : tc.size.isSome) :
    (∀ special ∈ [0xFD, 0xFE, 0xFF, 0x80, 0x88, 0x81, 0x89, 0x82, 0x8A, 0x83, 0x86], tc.toByte ≠ special) ∧
      arrayMode tc.toByte = 0 ∧ scalarType tc.toByte = .ok (.scalar tc) := by
  cases tc <;> first | exact absurd fixed (by decide) | exact ⟨by decide +kernel, by decide +kernel, rfl⟩

theorem scalarArray_tag {tc : TypeCode} (fixed : tc.size.isSome) :
    (∀ special ∈ [0xFD, 0xFE, 0xFF, 0x80, 0x88, 0x81, 0x89, 0x82, 0x8A, 0x83, 0x86],
      tc.toByte ||| 0x08 ≠ special) ∧
      arrayMode (tc.toByte ||| 0x08) = 0x08 ∧ scalarType (tc.toByte ||| 0x08) = .ok (.scalarArray tc) := by
  cases tc <;> first | exact absurd fixed (by decide) | exact ⟨by decide +kernel, by decide +kernel, rfl⟩

/-- No descriptor starts like a null variant. -/
theorem encodeTypeDesc_head (isBe : Bool) {ft : FieldType} {limits : DecodeLimits} (expressible : Expressible limits ft) :
    ∃ tag tail, encodeTypeDesc isBe ft = tag :: tail ∧ tag ≠ 0xFF := by
  cases ft with
  | scalar tc => exact ⟨_, _, rfl, (scalar_tag expressible).1 _ (by simp)⟩
  | scalarArray tc => exact ⟨_, _, rfl, (scalarArray_tag expressible).1 _ (by simp)⟩
  | _ => exact ⟨_, _, rfl, by decide⟩

theorem parseScalarDesc_reads {tag : UInt8} {ft : FieldType} {parse : List UInt8 → DecodeM (FieldType × Nat)}
    (plain : ∀ special ∈ [0xFD, 0xFE, 0xFF, 0x80, 0x88, 0x81, 0x89, 0x82, 0x8A, 0x83, 0x86], tag ≠ special)
    (mode : arrayMode tag = 0 ∨ arrayMode tag = 0x08) (type : scalarType tag = .ok ft) :
    dec.ReadsAlways levels 0 (dec.parseLiteral parse tag) [tag] ft := by
  intro rest
  simp only [List.mem_cons, List.not_mem_nil, or_false, forall_eq_or_imp, forall_eq] at plain
  have unbounded : dec.boundOffset tag ([tag] ++ rest) = pure 1 := by
    rw [boundOffset, if_neg (by tauto)]
  have scalar : dec.parseLiteral parse tag ([tag] ++ rest) = dec.parseScalarDesc tag ([tag] ++ rest) := by
    simp [parseLiteral, plain]
  rw [scalar, parseScalarDesc, unbounded, type]
  exact .pure

theorem parseBody_reads {parse : List UInt8 → DecodeM (FieldType × Nat)} {desc : StructureDesc}
    {t body : List UInt8} {tag : UInt8} {nodes : Nat} {w : StructureDesc → FieldType}
    (reads : dec.ReadsAlways levels nodes (dec.parseStructureDesc parse) body desc)
    (opens : ∀ data, dec.parseLiteral parse tag (t ++ data) = do
      let (desc, consumed) ← dec.parseStructureDesc parse data
      pure (w desc, t.length + consumed)) :
    dec.ReadsAlways levels nodes (dec.parseLiteral parse tag) (t ++ body) (w desc) := by
  intro rest
  rw [List.append_assoc, opens, List.length_append]
  exact (reads rest).bindThen .pure

theorem parseTypeDesc_reads (ft : FieldType) (expressible : Expressible dec.limits ft) :
    ∀ fuel levels, typeHeight ft ≤ fuel + 1 → typeHeight ft ≤ levels + 1 →
      dec.ReadsAlways (levels + 1) (typeNodes ft) (dec.parseTypeDesc (fuel + 1)) (encodeTypeDesc dec.isBe ft) ft := by
  have step : ∀ {ft : FieldType} {tag : UInt8} {body : List UInt8} {nodes fuel levels : Nat},
      tag ≠ 0xFD ∧ tag ≠ 0xFE →
      dec.ReadsAlways levels nodes (dec.parseLiteral (dec.parseTypeDesc fuel) tag) (tag :: body) ft →
      dec.ReadsAlways (levels + 1) (1 + nodes) (dec.parseTypeDesc (fuel + 1)) (tag :: body) ft :=
    fun literal reads rest => (parseTypeDescWith_reads literal reads rest).enter
  -- A field's own height is what is left below its structure, so it is at least one.
  have below : ∀ {fs : List FieldDesc} {fuel levels : Nat},
      (∀ f ∈ fs, Expressible dec.limits f.fieldType → ∀ fuel levels, typeHeight f.fieldType ≤ fuel + 1 →
        typeHeight f.fieldType ≤ levels + 1 → dec.ReadsAlways (levels + 1) (typeNodes f.fieldType)
          (dec.parseTypeDesc (fuel + 1)) (encodeTypeDesc dec.isBe f.fieldType) f.fieldType) →
      1 + fieldsHeight fs ≤ fuel + 1 → 1 + fieldsHeight fs ≤ levels + 1 →
      ∀ f ∈ fs, Expressible dec.limits f.fieldType → dec.ReadsAlways levels (typeNodes f.fieldType)
        (dec.parseTypeDesc fuel) (encodeTypeDesc dec.isBe f.fieldType) f.fieldType := by
    intro fs fuel levels ih enough deep f member type
    have height := typeHeight_le_fieldsHeight member
    have positive := typeHeight_pos f.fieldType
    obtain ⟨fuel, rfl⟩ : ∃ k, fuel = k + 1 := ⟨fuel - 1, by omega⟩
    obtain ⟨levels, rfl⟩ : ∃ k, levels = k + 1 := ⟨levels - 1, by omega⟩
    exact ih f member type fuel levels (by omega) (by omega)
  induction ft with
  | scalar tc =>
    intro fuel levels _ _
    obtain ⟨plain, mode, type⟩ := scalar_tag expressible
    exact step ⟨plain _ (by simp), plain _ (by simp)⟩ (parseScalarDesc_reads plain (Or.inl mode) type)
  | scalarArray tc =>
    intro fuel levels _ _
    obtain ⟨plain, mode, type⟩ := scalarArray_tag expressible
    exact step ⟨plain _ (by simp), plain _ (by simp)⟩ (parseScalarDesc_reads plain (Or.inr mode) type)
  | string =>
    intro fuel levels _ _
    exact step (by decide +kernel) (parseScalarDesc_reads (by decide +kernel) (Or.inl (by decide +kernel)) rfl)
  | stringArray =>
    intro fuel levels _ _
    exact step (by decide +kernel) (parseScalarDesc_reads (by decide +kernel) (Or.inr (by decide +kernel)) rfl)
  | struct desc ih | structArray desc ih =>
    intro fuel levels enough deep
    simp only [typeHeight] at enough deep
    obtain ⟨named, short, within, small, fields⟩ := expressible
    have body := parseStructureDesc_reads named short within small fields (below ih enough deep)
    first
    | exact step (by decide) (parseBody_reads (t := [0x80]) (w := .structure) body fun _ => rfl)
    | exact step (by decide) (parseBody_reads (t := [0x88, 0x80]) (w := .structureArray) body fun _ => rfl)
  | union fs ih | unionArray fs ih =>
    intro fuel levels enough deep
    simp only [typeHeight] at enough deep
    obtain ⟨within, small, fields⟩ := expressible
    have body := parseUnionDesc_reads within small fields (below ih enough deep)
    first
    | exact step (by decide) (parseBody_reads (t := [0x81]) (w := fun desc => .union desc.fields) body fun _ => rfl)
    | exact step (by decide) (parseBody_reads (t := [0x89, 0x81]) (w := fun desc => .unionArray desc.fields) body fun _ => rfl)
  | variant =>
    intro fuel levels _ _
    have body : dec.ReadsAlways levels 0 (dec.parseLiteral (dec.parseTypeDesc fuel) 0x82) [0x82] .variant :=
      fun _ => .pure
    exact step (by decide) body
  | variantArray =>
    intro fuel levels _ _
    have body : dec.ReadsAlways levels 0 (dec.parseLiteral (dec.parseTypeDesc fuel) 0x8A) [0x8A] .variantArray :=
      fun _ => .pure
    exact step (by decide) body
  | boundedString bound =>
    intro fuel levels _ _
    have body : dec.ReadsAlways levels 0 (dec.parseLiteral (dec.parseTypeDesc fuel) 0x83)
        (0x83 :: pushSize bound.toNat dec.isBe) (.boundedString bound) := by
      intro rest
      have same : UInt32.ofNat bound.toNat = bound := UInt32.ofNat_toNat
      refine (readsAlways_size dec levels bound.toNat_lt rest).bindFree ?_
      simp only [same]
      rw [List.length_cons, Nat.add_comm]
      exact .pure
    exact step (by decide) body

end Spvirit.PvdDecoder
