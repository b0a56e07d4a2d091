import Spvirit.Client.PutEncoded

/-! The payload of a PUT whose input is carried decodes to what the input gives. -/

namespace Spvirit.Client

open PvdDecoder

section

variable {ops : JsonOps} {isBe : Bool} {name : String} {bytes : List UInt8}

theorem encodeItems_elements {item : Json → Except String (List UInt8)} {js : List Json}
    (given : Json → DecodedValue → Prop) (good : List UInt8 × DecodedValue → Prop)
    (encoded : encodeItems item js = .ok bytes)
    (each : ∀ j ∈ js, ∀ b, item j = .ok b → ∃ v, given j v ∧ good (b, v)) :
    ∃ xs : Elements, bytes = xs.flatMap Prod.fst ∧ xs.length = js.length ∧
      List.Forall₂ given js (xs.map Prod.snd) ∧ ∀ x ∈ xs, good x := by
  induction js generalizing bytes with
  | nil =>
    cases encoded
    exact ⟨[], rfl, rfl, .nil, by simp⟩
  | cons j js ih =>
    cases head : item j with
    | error e => simp [encodeItems, head, bind, Except.bind] at encoded
    | ok b =>
      cases tail : encodeItems item js with
      | error e => simp [encodeItems, head, tail, bind, Except.bind] at encoded
      | ok bs =>
        simp only [encodeItems, head, tail, bind, Except.bind, pure, Except.pure, Except.ok.injEq] at encoded
        obtain ⟨v, gives, fine⟩ := each j List.mem_cons_self b head
        obtain ⟨xs, rfl, length, all, goods⟩ := ih tail fun k member => each k (List.mem_cons_of_mem j member)
        refine ⟨(b, v) :: xs, encoded.symm, by simp [length], .cons gives all, ?_⟩
        exact List.forall_mem_cons.mpr ⟨fine, goods⟩

theorem pushSize_ne_nil (size : Nat) (rest : List UInt8) : pushSize size isBe ++ rest ≠ [] := by
  have := @pushSize_length_pos size isBe
  intro empty
  rw [(List.append_eq_nil_iff.mp empty).1] at this
  exact Nat.lt_irrefl 0 this

theorem scalar_bytes_ne_nil {v : DecodedValue} {tc : TypeCode} (code : v.scalarCode = some tc) :
    tc.size.getD 1 ≤ (pushDecodedValue isBe v).length ∧ pushDecodedValue isBe v ≠ [] := by
  obtain ⟨size, width, -, -, pushed⟩ := scalar_word code
  have positive : 0 < size := by cases tc <;> cases width <;> decide
  rw [pushed, width]
  refine ⟨by simp, fun empty => ?_⟩
  have := congrArg List.length empty
  simp only [ByteOrder.toBytes_length, List.length_nil] at this
  omega

theorem encodeArray_items {expects : String} {item : Json → Except String (List UInt8)} {js : List Json}
    (encoded : encodeArray isBe expects item (.array js) name = .ok bytes) :
    ∃ body, encodeItems item js = .ok body ∧ bytes = pushSize js.length isBe ++ body := by
  simp only [encodeArray] at encoded
  cases items : encodeItems item js with
  | error e => simp [items, bind, Except.bind] at encoded
  | ok body =>
    simp only [items, bind, Except.bind, pure, Except.pure, Except.ok.injEq] at encoded
    exact ⟨body, rfl, encoded.symm⟩

theorem encodeArray_stands {expects kind : String} {item : Json → Except String (List UInt8)} {js : List Json}
    {decodeItem : List UInt8 → Nat → DecodeM (DecodedValue × Nat)} {minElem limit : Nat} (ft : FieldType) (levels : Nat)
    (given : Json → DecodedValue → Prop) (encoded : encodeArray isBe expects item (.array js) name = .ok bytes)
    (array : ∀ data, (PvdDecoder.new isBe).decodeValueWith ((PvdDecoder.new isBe).decodeValueFuel levels) data ft
      = (PvdDecoder.new isBe).decodeArray data minElem kind limit (decodeItem data))
    (small : limit < 2 ^ 32) (within : js.length ≤ limit)
    (each : ∀ j ∈ js, ∀ b, item j = .ok b → ∃ v, given j v ∧ minElem ≤ b.length ∧
      ∀ data offset rest, data.drop offset = b ++ rest →
        (PvdDecoder.new isBe).Yields levels 0 (decodeItem data offset) (v, offset + b.length)) :
    ∃ vs, List.Forall₂ given js vs ∧ (PvdDecoder.new isBe).StandsAs (levels + 1) ft bytes (.array vs) ∧ bytes ≠ [] := by
  obtain ⟨body, items, rfl⟩ := encodeArray_items encoded
  obtain ⟨xs, rfl, length, gives, good⟩ := encodeItems_elements given
    (fun x => minElem ≤ x.1.length ∧ ∀ data offset rest, data.drop offset = x.1 ++ rest →
      (PvdDecoder.new isBe).Yields levels 0 (decodeItem data offset) (x.2, offset + x.1.length)) items each
  refine ⟨xs.map Prod.snd, gives, ?_, pushSize_ne_nil _ _⟩
  rw [← length]
  exact standsAs_array xs array (by omega) (by omega) (fun x member => (good x member).1) fun x member => (good x member).2

/-- What the encoding of a value at a type stands for. -/
def Stands (ops : JsonOps) (isBe : Bool) (ft : FieldType) : Prop :=
  ∀ levels j name bytes, encodeTyped ops isBe false ft j name = .ok bytes →
    Carried DecodeLimits.default ft levels j →
    ∃ v, Given ft j v ∧ (PvdDecoder.new isBe).StandsAs (levels + 1) ft bytes v ∧ bytes ≠ []

theorem encodeMember_stands {fields : List FieldDesc} {index levels : Nat} {j : Json}
    (each : ∀ f ∈ fields, Stands ops isBe f.fieldType)
    (encoded : encodeMember ops isBe fields index name j = some (.ok bytes))
    (carried : CarriedMember DecodeLimits.default fields index levels name j) :
    ∃ at' field v body, fields[at']? = some field ∧ field.name = name ∧ index + at' < 2 ^ 32 ∧
      bytes = pushSize (index + at') isBe ++ body ∧ GivenMember fields name j v ∧
      (PvdDecoder.new isBe).StandsAs levels field.fieldType body v := by
  induction fields generalizing index with
  | nil => exact carried.elim
  | cons f fs ih =>
    simp only [encodeMember] at encoded
    simp only [CarriedMember] at carried
    by_cases here : f.name = name
    · rw [if_pos here] at encoded carried
      obtain ⟨small, below, rfl, inner⟩ := carried
      cases value : encodeTyped ops isBe false f.fieldType j name with
      | error e => simp [value, bind, Except.bind] at encoded
      | ok body =>
        simp only [value, bind, Except.bind, pure, Except.pure, Option.some.injEq, Except.ok.injEq] at encoded
        obtain ⟨v, gives, stands, -⟩ := each f List.mem_cons_self below j name body value inner
        refine ⟨0, f, v, body, rfl, here, small, encoded.symm, ?_, stands⟩
        rw [GivenMember, if_pos here]
        exact gives
    · rw [if_neg here] at encoded carried
      obtain ⟨at', field, v, body, found, same, small, layout, gives, stands⟩ :=
        ih (fun g member => each g (List.mem_cons_of_mem f member)) encoded carried
      refine ⟨at' + 1, field, v, body, found, same, by omega, ?_, ?_, stands⟩
      · rw [layout]
        congr 2
        omega
      · rw [GivenMember, if_neg here]
        exact gives

theorem encodeUnion_member {member : String → Json → Option (Except String (List UInt8))} {selected : String} {j : Json}
    (encoded : encodeUnion member (.object [(selected, j)]) name = .ok bytes) : member selected j = some (.ok bytes) := by
  simp only [encodeUnion] at encoded
  cases result : member selected j with
  | none => simp [result] at encoded
  | some r =>
    rw [result, Option.getD_some] at encoded
    rw [encoded]

theorem encodeTyped_stands (ft : FieldType) : Stands ops isBe ft := by
  induction ft with
  | scalar tc =>
    rintro levels j name bytes encoded ⟨v, gives⟩
    obtain ⟨code, rfl⟩ := encodeScalarValue_given encoded gives
    exact ⟨v, gives, standsAs_scalar code, (scalar_bytes_ne_nil code).2⟩
  | string =>
    rintro levels j name bytes encoded ⟨s, rfl, short⟩
    cases encoded
    exact ⟨.string s, ⟨s, rfl, rfl⟩, standsAs_string short, pushSize_ne_nil _ _⟩
  | boundedString bound =>
    rintro levels j name bytes encoded ⟨s, rfl, short⟩
    cases encoded
    exact ⟨.string s, ⟨s, rfl, rfl⟩, standsAs_boundedString bound short, pushSize_ne_nil _ _⟩
  | scalarArray tc =>
    rintro levels j name bytes encoded ⟨js, rfl, within, all⟩
    change encodeArray isBe "expects array" (fun item => encodeScalarValue ops isBe tc item name) (.array js) name
      = .ok bytes at encoded
    obtain ⟨vs, given, stands, nonempty⟩ := encodeArray_stands (.scalarArray tc) levels (GivenScalar tc) encoded (fun _ => rfl)
      (by simp [PvdDecoder.new, DecodeLimits.default]) within (by
        intro k member b value
        obtain ⟨v, gives⟩ := all k member
        obtain ⟨code, rfl⟩ := encodeScalarValue_given value gives
        refine ⟨v, gives, (scalar_bytes_ne_nil code).1, fun data offset rest here => ?_⟩
        rw [here]
        exact (Yields.ofExcept (decodeScalar_push code)).bindFree .pure)
    exact ⟨.array vs, ⟨js, vs, rfl, rfl, given⟩, stands, nonempty⟩
  | stringArray =>
    rintro levels j name bytes encoded ⟨js, rfl, within, all⟩
    change encodeArray isBe "expects array" (fun item => encodeStringValue isBe item name) (.array js) name
      = .ok bytes at encoded
    obtain ⟨vs, given, stands, nonempty⟩ := encodeArray_stands .stringArray levels GivenString encoded (fun _ => rfl)
      (by simp [PvdDecoder.new, DecodeLimits.default]) within (by
        intro k member b value
        obtain ⟨s, rfl, short⟩ := all k member
        cases value
        refine ⟨.string s, ⟨s, rfl, rfl⟩, ?_, fun data offset rest here => ?_⟩
        · exact List.length_pos_iff.mpr (pushSize_ne_nil _ _)
        · rw [here]
          exact (readsAlways_string (PvdDecoder.new isBe) levels short rest).bindFree .pure)
    exact ⟨.array vs, ⟨js, vs, rfl, rfl, given⟩, stands, nonempty⟩
  | struct _ _ | variant | variantArray => exact fun levels j name bytes encoded carried => carried.elim
  | structArray desc _ =>
    rintro levels j name bytes encoded rfl
    change encodeArray isBe "expects array" _ (.array []) name = .ok bytes at encoded
    obtain ⟨vs, given, stands, nonempty⟩ := encodeArray_stands (.structureArray desc) levels
      (fun k w => ∃ obj ws, k = .object obj ∧ w = .structure ws ∧ GivenFields desc.fields obj ws) encoded (fun _ => rfl)
      (by simp [PvdDecoder.new, DecodeLimits.default]) (Nat.zero_le _) (by simp)
    exact ⟨.array vs, ⟨[], vs, rfl, rfl, given⟩, stands, nonempty⟩
  | union fields each =>
    rintro levels j name bytes encoded ⟨selected, k, rfl, member⟩
    obtain ⟨index, field, v, body, found, rfl, small, rfl, gives, stands⟩ :=
      encodeMember_stands each (encodeUnion_member encoded) member
    rw [Nat.zero_add] at small ⊢
    exact ⟨_, ⟨field.name, k, v, rfl, rfl, gives⟩, standsAs_union small found stands, pushSize_ne_nil _ _⟩
  | unionArray fields each =>
    rintro levels j name bytes encoded ⟨js, rfl, within, all⟩
    change encodeArray isBe "expects array for union[]"
      (fun item => encodeUnion (encodeMember ops isBe fields 0) item name) (.array js) name = .ok bytes at encoded
    obtain ⟨vs, given, stands, nonempty⟩ := encodeArray_stands (.unionArray fields) levels
      (fun k w => ∃ name l x, k = .object [(name, l)] ∧ w = .structure [(name, x)] ∧ GivenMember fields name l x)
      encoded (fun _ => rfl) (by simp [PvdDecoder.new, DecodeLimits.default]) within (by
        intro k member b value
        obtain ⟨selected, l, rfl, inner⟩ := all k member
        obtain ⟨index, field, v, body, found, rfl, small, rfl, gives, stands⟩ :=
          encodeMember_stands each (encodeUnion_member value) inner
        rw [Nat.zero_add] at small ⊢
        refine ⟨_, ⟨field.name, l, v, rfl, rfl, gives⟩, ?_, fun data offset rest here => ?_⟩
        · exact List.length_pos_iff.mpr (pushSize_ne_nil _ _)
        · exact unionItem_yields small found (stands _) here)
    exact ⟨.array vs, ⟨js, vs, rfl, rfl, given⟩, stands, nonempty⟩

end

section

variable {ops : JsonOps} {isBe : Bool}

variable (ops isBe) in
/-- The bytes of a field of that type carry what the input gives. -/
def SendsField (ft : FieldType) : Prop :=
  ∀ name fs values bytes rest vs, FieldEncodes ops isBe ft name (Json.get values name) bytes →
    CarriedField DecodeLimits.default ft (Json.get values name) →
    Sent (PvdDecoder.new isBe) fs (namedFlags fs values) vs rest → GivenFields fs values vs →
    ∃ ws, Sent (PvdDecoder.new isBe) (⟨name, ft⟩ :: fs) (namedFlags (⟨name, ft⟩ :: fs) values) ws (bytes ++ rest) ∧
      GivenFields (⟨name, ft⟩ :: fs) values ws

theorem fieldsEncode_sent {fs : List FieldDesc} (each : ∀ f ∈ fs, SendsField ops isBe f.fieldType)
    {values : List (String × Json)} {bytes : List UInt8} (encoded : FieldsEncode ops isBe fs values bytes)
    (carried : CarriedFields DecodeLimits.default fs values) :
    ∃ vs, Sent (PvdDecoder.new isBe) fs (namedFlags fs values) vs bytes ∧ GivenFields fs values vs := by
  induction fs generalizing bytes with
  | nil =>
    obtain rfl : bytes = [] := encoded
    exact ⟨[], .nil, rfl⟩
  | cons f fs ih =>
    obtain ⟨head, tail, rfl, own, others⟩ := encoded
    obtain ⟨vs, sent, given⟩ := ih (fun g member => each g (List.mem_cons_of_mem f member)) others carried.2
    exact each f List.mem_cons_self f.name fs values head tail vs own carried.1 sent given

theorem leaf_sendsField {ft : FieldType} (leaf : ft.isStructure = false) : SendsField ops isBe ft := by
  intro name fs values bytes rest vs encoded carried sent given
  have asLeaf : ∀ k, Json.get values name = some k → Carried DecodeLimits.default ft 31 k := by
    cases ft <;> first | exact carried | simp [FieldType.isStructure] at leaf
  rw [namedFlags, fieldFlags_leaf leaf]
  rcases (fieldEncodes_leaf leaf).mp encoded with ⟨missing, rfl⟩ | ⟨j, found, value⟩
  · refine ⟨vs, ?_, ?_⟩
    · rw [missing]
      exact .skipped name leaf sent
    · rw [GivenFields, missing]
      exact given
  · obtain ⟨v, gives, stands, nonempty⟩ := encodeTyped_stands ft 31 j name bytes value (asLeaf j found)
    refine ⟨(name, v) :: vs, ?_, ?_⟩
    · rw [found]
      exact .sent name leaf nonempty stands sent
    · rw [GivenFields, found]
      exact ⟨v, vs, rfl, gives, given⟩

theorem sent_flags_any {dec : PvdDecoder} {fs : List FieldDesc} {flags : List Bool} {vs : List (String × DecodedValue)}
    {bytes : List UInt8} (sent : Sent dec fs flags vs bytes) (filled : vs ≠ []) : flags.any id = true := by
  induction sent with
  | nil => exact absurd rfl filled
  | sent name leaf nonempty stands tail ih => rfl
  | skipped _ _ _ ih | absent _ _ ih => simpa using ih filled
  | walked name nested some inside tail ihNested ih => simp [some]

theorem givenFields_ne_nil {fs : List FieldDesc} {values : List (String × Json)} {vs : List (String × DecodedValue)}
    (given : GivenFields fs values vs) (named : ∃ f ∈ fs, (Json.get values f.name).isSome) : vs ≠ [] := by
  induction fs with
  | nil =>
    obtain ⟨f, member, -⟩ := named
    cases member
  | cons f fs ih =>
    rw [GivenFields] at given
    cases found : Json.get values f.name with
    | some j =>
      rw [found] at given
      obtain ⟨v, rest, rfl, -⟩ := given
      exact List.cons_ne_nil _ _
    | none =>
      rw [found] at given
      obtain ⟨g, member, isSome⟩ := named
      rcases List.mem_cons.mp member with rfl | later
      · simp [found] at isSome
      · exact ih given ⟨g, later, isSome⟩

theorem sendsField (ft : FieldType) : SendsField ops isBe ft := by
  induction ft with
  | struct desc each =>
    intro name fs values bytes rest vs encoded carried sent given
    rw [namedFlags, fieldFlags.eq_def]
    rcases encoded with ⟨missing, rfl⟩ | ⟨obj, found, named, inner⟩
    · refine ⟨vs, ?_, ?_⟩
      · rw [missing]
        exact .absent name sent
      · rw [GivenFields, missing]
        exact given
    · obtain ⟨_, same, innerCarried⟩ := carried _ found
      cases same
      obtain ⟨ws, innerSent, innerGiven⟩ := fieldsEncode_sent each inner innerCarried
      have filled := givenFields_ne_nil innerGiven named
      refine ⟨(name, .structure ws) :: vs, ?_, ?_⟩
      · rw [found]
        exact .walked name innerSent (sent_flags_any innerSent filled) filled sent
      · rw [GivenFields, found]
        exact ⟨.structure ws, vs, rfl, ⟨obj, ws, rfl, rfl, innerGiven⟩, given⟩
  | _ => exact leaf_sendsField rfl

def GivenRoot (desc : StructureDesc) (input : Json) (vs : List (String × DecodedValue)) : Prop :=
  ∃ root, normalizeRoot desc input = .ok root ∧ GivenFields desc.fields root vs

/-- Every field named in the input is carried, and the bitset can tell which they are. -/
def CarriedRoot (desc : StructureDesc) (input : Json) : Prop :=
  ∃ root, normalizeRoot desc input = .ok root ∧ CarriedFields DecodeLimits.default desc.fields root ∧
    FitsSize (namedFlags desc.fields root)

theorem carried_round_trips {desc : StructureDesc} {input : Json} {payload : List UInt8}
    (accepted : encodePutPayload ops isBe desc input = .ok payload) (carried : CarriedRoot desc input) :
    ∃ vs, GivenRoot desc input vs ∧
      ((PvdDecoder.new isBe).decodeStructureWithBitset payload desc (PvdDecoder.new isBe).fresh).1
        = .ok (.structure vs, payload.length) := by
  obtain ⟨root, body, normal, -, encoded, filled, rfl⟩ := encodePutPayload_ok accepted
  obtain ⟨root', normal', inner, fits⟩ := carried
  obtain rfl : root = root' := Except.ok.inj (normal.symm.trans normal')
  obtain ⟨bytes, fields, encodes⟩ := encodePartialFields_encodes (fun f _ => encodesField f.fieldType) encoded
  obtain ⟨vs, sent, given⟩ := fieldsEncode_sent (fun f _ => sendsField f.fieldType) fields inner
  obtain ⟨bits, whole⟩ := encodes.bits.bitsAre
  refine ⟨vs, ⟨root, normal, given⟩, ?_⟩
  rw [encodes.data]
  exact sent.decodeStructureWithBitset bits whole (encodes.small fits) filled

end

end Spvirit.Client
