import Spvirit.Codec.Bitset

/-! No decode reports more bytes than its input holds. -/

namespace Spvirit

open Fallible

section

variable {data : List UInt8} {isBe : Bool}

theorem decodeSizePrefixed_extent {r : Nat × Nat} (decoded : decodeSizePrefixed data isBe = .ok r) :
    1 ≤ r.2 ∧ r.2 ≤ data.length := by
  cases data with
  | nil => cases decoded
  | cons first rest =>
    simp only [decodeSizePrefixed] at decoded
    split_ifs at decoded with null short long <;> cases decoded
    all_goals
      simp only [List.length_cons] at *
      omega

theorem decodeStringPrefixed_extent {r : String × Nat} (decoded : decodeStringPrefixed data isBe = .ok r) :
    1 ≤ r.2 ∧ r.2 ≤ data.length := by
  unfold decodeStringPrefixed at decoded
  cases sized : decodeSizePrefixed data isBe with
  | error e => rw [sized] at decoded; cases decoded
  | ok p =>
    obtain ⟨size, sizeBytes⟩ := p
    have extent := decodeSizePrefixed_extent sized
    rw [sized] at decoded
    change (if size = 0 then _ else _) = _ at decoded
    split_ifs at decoded with empty short
    · cases decoded
      exact extent
    · split at decoded
      · cases decoded
      · cases decoded
        dsimp only at extent ⊢
        omega

end

namespace PvdDecoder

variable {dec : PvdDecoder} {data : List UInt8}

section

variable {α : Type} {m : DecodeM α} {post : α → Prop}

theorem returns_enter (returns : Returns m post) : Returns (dec.enter m) post := by
  intro c a t result
  unfold enter at result
  split_ifs at result
  · cases result
  · rcases inner : m { c with depth := c.depth + 1 } with ⟨r, c'⟩
    rw [inner] at result
    cases result
    exact returns _ _ _ inner

theorem returns_scope {inputLen : Nat} (returns : Returns m post) : Returns (dec.nodeBudgetScope inputLen m) post := by
  intro c a t result
  unfold nodeBudgetScope at result
  dsimp only at result
  generalize (if c.budgetScope = 0 then _ else c : Cells) = opened at result
  rcases inner : m { opened with budgetScope := opened.budgetScope + 1 } with ⟨r, c'⟩
  rw [inner] at result
  cases result
  exact returns _ _ _ inner

end

/-- What a decode of `data` may report as consumed. -/
def Within {α : Type} (data : List UInt8) (m : DecodeM (α × Nat)) : Prop := Returns m fun r => r.2 ≤ data.length

section

variable {parse : List UInt8 → DecodeM (FieldType × Nat)}

/-- A descriptor parse consumes a byte at least. -/
def ParsesWithin (parse : List UInt8 → DecodeM (FieldType × Nat)) : Prop :=
  ∀ data, Returns (parse data) fun r => 1 ≤ r.2 ∧ r.2 ≤ data.length

theorem parseFieldDescWith_within (parses : ParsesWithin parse) (data : List UInt8) :
    Within data (dec.parseFieldDescWith parse data) := by
  refine returns_scope ?_
  unfold fieldDescBody
  split_ifs
  · exact .throw
  · refine .bindExcept fun name named => ?_
    have extent := decodeStringPrefixed_extent named
    obtain ⟨name, consumed⟩ := name
    dsimp only
    split_ifs
    · exact .throw
    · refine (parses _).bind fun r inside => .pure ?_
      rw [List.length_drop] at inside
      dsimp only at extent ⊢
      omega

theorem parseFields_within (parses : ParsesWithin parse) (count offset : Nat) (inside : offset ≤ data.length) :
    Within data (dec.parseFields parse data count offset) := by
  induction count generalizing offset with
  | zero => exact .pure inside
  | succ count ih =>
    unfold parseFields
    split_ifs
    · exact .pure inside
    · refine (parseFieldDescWith_within parses (data.drop offset)).attempt.bind fun result extent => ?_
      split
      · exact .pure inside
      case h_2 field consumed =>
        have short := extent _ rfl
        rw [List.length_drop] at short
        exact (ih (offset + consumed) (by dsimp only at short; omega)).bind fun r stop => .pure stop

theorem parseStructureDesc_within (parses : ParsesWithin parse) (data : List UInt8) :
    Within data (dec.parseStructureDesc parse data) := by
  refine .bindExcept fun id named => ?_
  have first := decodeStringPrefixed_extent named
  obtain ⟨structId, consumed⟩ := id
  refine .bindExcept fun count sized => ?_
  have second := decodeSizePrefixed_extent sized
  obtain ⟨fieldCount, countConsumed⟩ := count
  rw [List.length_drop] at second
  dsimp only at first second ⊢
  split
  · exact .throw
  · exact (parseFields_within parses fieldCount (consumed + countConsumed) (by omega)).bind fun r stop => .pure stop

theorem bodyOffset_within {isArray : Bool} {tag : UInt8} {offset : Nat} (some : data ≠ [])
    (found : bodyOffset data isArray tag = .ok offset) : 1 ≤ offset ∧ offset ≤ data.length := by
  have long := List.length_pos_iff.mpr some
  unfold bodyOffset at found
  split_ifs at found
  · split at found
    · cases found
    case h_2 next rest cut =>
      have more := congrArg List.length cut
      rw [List.length_drop, List.length_cons] at more
      split_ifs at found
      cases found
      omega
  · cases found
    omega

theorem boundOffset_within (typeByte : UInt8) (some : data ≠ []) :
    Returns (dec.boundOffset typeByte data) fun offset => 1 ≤ offset ∧ offset ≤ data.length := by
  have long := List.length_pos_iff.mpr some
  unfold boundOffset
  split_ifs
  · refine .bindExcept fun bound sized => .pure ?_
    have extent := decodeSizePrefixed_extent sized
    rw [List.length_drop] at extent
    exact ⟨by omega, by omega⟩
  · exact .pure (by omega)

theorem parseLiteral_within (parses : ParsesWithin parse) (typeByte : UInt8) (some : data ≠ []) :
    Returns (dec.parseLiteral parse typeByte data) fun r => 1 ≤ r.2 ∧ r.2 ≤ data.length := by
  have long := List.length_pos_iff.mpr some
  have body : ∀ (tag : UInt8) (isArray : Bool) (g : StructureDesc → FieldType), Returns
      (ofExcept (bodyOffset data isArray tag) >>= fun offset => dec.parseStructureDesc parse (data.drop offset) >>= fun r =>
        pure (g r.1, offset + r.2) : DecodeM (FieldType × Nat)) fun r => 1 ≤ r.2 ∧ r.2 ≤ data.length := by
    refine fun tag isArray g => .bindExcept fun offset found => ?_
    have start := bodyOffset_within some found
    refine (parseStructureDesc_within parses _).bind fun r extent => .pure ?_
    rw [List.length_drop] at extent
    exact ⟨by omega, by omega⟩
  unfold parseLiteral
  split_ifs
  · exact .pure ⟨le_rfl, long⟩
  · exact body _ _ fun desc => if typeByte &&& 0x08 ≠ 0 then .structureArray desc else .structure desc
  · exact body _ _ fun desc => if typeByte &&& 0x08 ≠ 0 then .unionArray desc.fields else .union desc.fields
  · exact .pure ⟨le_rfl, long⟩
  · exact .pure ⟨le_rfl, long⟩
  · refine .bindExcept fun bound sized => .pure ?_
    have extent := decodeSizePrefixed_extent sized
    rw [List.length_drop] at extent
    dsimp only
    omega
  · exact (boundOffset_within typeByte some).bind fun offset extent => .skip fun _ => .pure extent

theorem parseTypeDescWith_within (parses : ParsesWithin parse) : ParsesWithin (dec.parseTypeDescWith parse) := by
  intro data
  unfold parseTypeDescWith
  split
  · exact .throw
  · refine (parses _).bind fun r extent => .skip fun _ => .pure ?_
    simp only [List.length_cons]
    omega
  · refine .skip fun c => ?_
    split
    · exact .skip fun _ => .skip fun _ => .skip fun _ => .pure (by simp)
    · exact .throw
  · split_ifs
    · exact .throw
    · exact .skip fun _ => .skip fun _ => parseLiteral_within parses _ (by simp)

end

theorem parseTypeDesc_within (fuel : Nat) : ParsesWithin (dec.parseTypeDesc fuel) := by
  induction fuel with
  | zero => exact fun data => returns_enter .throw
  | succ fuel ih => exact fun data => returns_enter (parseTypeDescWith_within ih data)

theorem parseFieldDesc_within (data : List UInt8) : Within data (dec.parseFieldDesc data) :=
  parseFieldDescWith_within (parseTypeDesc_within _) data

theorem parseIntrospectionFuel_within (fuel : Nat) (data : List UInt8) :
    Within data (dec.parseIntrospectionFuel fuel data) := by
  induction fuel generalizing data with
  | zero => exact returns_scope (returns_enter .throw)
  | succ fuel ih =>
    refine returns_scope (returns_enter ?_)
    unfold parseIntrospectionWith
    split
    · exact .throw
    · refine .skip fun _ => .skip fun _ => (parseStructureDesc_within (parseTypeDesc_within _) _).bind fun r extent => .pure ?_
      simp only [List.length_cons]
      omega
    · refine (ih _).bind fun r extent => .skip fun _ => .pure ?_
      simp only [List.length_cons]
      omega
    · refine .skip fun c => ?_
      split
      · exact .skip fun _ => .skip fun _ => .skip fun _ => .pure (by simp)
      · exact .throw
    · split_ifs
      · exact .throw
      · exact .throw

section

variable {decodeValue : List UInt8 → FieldType → DecodeM (DecodedValue × Nat)}

def DecodesWithin (decodeValue : List UInt8 → FieldType → DecodeM (DecodedValue × Nat)) : Prop :=
  ∀ data ft, Within data (decodeValue data ft)

theorem decodeScalar_within {tc : TypeCode} {r : DecodedValue × Nat} (decoded : dec.decodeScalar data tc = .ok r) :
    1 ≤ r.2 ∧ r.2 ≤ data.length := by
  unfold decodeScalar at decoded
  split at decoded
  · cases decoded
  case h_2 size sized =>
    have positive : 1 ≤ size := by cases tc <;> simp [TypeCode.size] at sized <;> omega
    split_ifs at decoded with short
    split at decoded
    · cases decoded
      exact ⟨positive, Nat.le_of_not_lt short⟩
    · cases decoded

theorem decodeItems_within {item : Nat → DecodeM (DecodedValue × Nat)}
    (each : ∀ offset ≤ data.length, Within data (item offset)) (count offset : Nat) (inside : offset ≤ data.length) :
    Within data (decodeItems item count offset) := by
  induction count generalizing offset with
  | zero => exact .pure inside
  | succ count ih => exact (each offset inside).bind fun r next => (ih r.2 next).bind fun rest stop => .pure stop

theorem decodeArray_within {minElem limit : Nat} {kind : String} {item : Nat → DecodeM (DecodedValue × Nat)}
    (each : ∀ offset ≤ data.length, Within data (item offset)) :
    Within data (dec.decodeArray data minElem kind limit item) := by
  refine .bindExcept fun size sized => .skip fun _ => ?_
  have extent := decodeSizePrefixed_extent sized
  exact (decodeItems_within each size.1 size.2 extent.2).bind fun r stop => .pure stop

section

variable (decodes : DecodesWithin decodeValue)

include decodes

theorem decodeFields_within (fs : List FieldDesc) (offset : Nat)
    (inside : offset ≤ data.length) : Within data (decodeFields decodeValue data fs offset) := by
  induction fs generalizing offset with
  | nil => exact .pure inside
  | cons f fs ih =>
    unfold decodeFields
    split_ifs
    · exact .pure inside
    · refine (decodes (data.drop offset) f.fieldType).attempt.bind fun result extent => ?_
      split
      · exact .pure inside
      case h_2 value consumed =>
        have short := extent _ rfl
        rw [List.length_drop] at short
        exact (ih (offset + consumed) (by dsimp only at short; omega)).bind fun r stop => .pure stop

theorem decodeStructureWith_within (data : List UInt8) (desc : StructureDesc) :
    Within data (dec.decodeStructureWith decodeValue data desc) :=
  returns_scope ((decodeFields_within decodes desc.fields 0 (Nat.zero_le _)).bind fun _ stop => .pure stop)

theorem structureItem_within (desc : StructureDesc) (offset : Nat) :
    Within data (dec.structureItem decodeValue data desc offset) := by
  unfold structureItem
  split
  · exact .throw
  case h_2 found => exact .pure (List.getElem?_eq_some_iff.mp found).1
  case h_3 found =>
    have inside := (List.getElem?_eq_some_iff.mp found).1
    refine (decodeStructureWith_within decodes _ desc).bind fun r extent => .pure ?_
    rw [List.length_drop] at extent
    dsimp only
    omega

theorem unionItem_within (fields : List FieldDesc) (offset : Nat)
    (inside : offset ≤ data.length) : Within data (dec.unionItem decodeValue data fields offset) := by
  refine .bindExcept fun selector sized => .skip fun field => (decodes _ _).bind fun r extent => .pure ?_
  have start := decodeSizePrefixed_extent sized
  rw [List.length_drop] at start extent
  dsimp only
  omega

theorem variantValue_within (data : List UInt8) : Within data (dec.variantValue decodeValue data) := by
  unfold variantValue
  split
  · exact .throw
  · exact .pure (by simp)
  · refine (parseTypeDesc_within _ _).bind fun tag start => .skip fun _ => (decodes _ _).bind fun r extent => .pure ?_
    rw [List.length_drop] at extent
    dsimp only
    omega

theorem decodeValueWith_within (data : List UInt8) (ft : FieldType) :
    Within data (dec.decodeValueWith decodeValue data ft) := by
  cases ft with
  | scalar tc => exact .ofExcept fun r decoded => (decodeScalar_within decoded).2
  | string | boundedString _ => exact .bindExcept fun r decoded => .pure (decodeStringPrefixed_extent decoded).2
  | scalarArray tc =>
    refine decodeArray_within fun offset inside => .bindExcept fun r decoded => .pure ?_
    have extent := decodeScalar_within decoded
    rw [List.length_drop] at extent
    dsimp only
    omega
  | stringArray =>
    refine decodeArray_within fun offset inside => .bindExcept fun r decoded => .pure ?_
    have extent := decodeStringPrefixed_extent decoded
    rw [List.length_drop] at extent
    dsimp only
    omega
  | «structure» desc => exact decodeStructureWith_within decodes data desc
  | structureArray desc => exact decodeArray_within fun offset _ => structureItem_within decodes desc offset
  | union fields => exact unionItem_within decodes fields 0 (Nat.zero_le _)
  | unionArray fields => exact decodeArray_within (unionItem_within decodes fields)
  | variant => exact variantValue_within decodes data
  | variantArray =>
    refine decodeArray_within fun offset inside => (decodes _ _).bind fun r extent => .pure ?_
    rw [List.length_drop] at extent
    dsimp only
    omega

end

end

theorem decodeValueFuel_within (fuel : Nat) : DecodesWithin (dec.decodeValueFuel fuel) := by
  induction fuel with
  | zero => exact fun data ft => returns_scope (returns_enter .throw)
  | succ fuel ih => exact fun data ft => returns_scope (returns_enter (decodeValueWith_within ih data ft))

theorem decodeValue_within (data : List UInt8) (ft : FieldType) : Within data (dec.decodeValue data ft) :=
  decodeValueFuel_within _ data ft

theorem decodeStructure_within (data : List UInt8) (desc : StructureDesc) :
    Within data (dec.decodeStructure data desc) :=
  decodeStructureWith_within (decodeValueFuel_within _) data desc

end PvdDecoder

end Spvirit
