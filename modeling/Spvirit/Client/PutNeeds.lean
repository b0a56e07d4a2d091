import Spvirit.Client.PutCarried
import Spvirit.Codec.Expressed
import Spvirit.Codec.LeastBytes
import Spvirit.Codec.WalkExtent

/-! A payload decodes to what its input gives only if the input is carried. -/

namespace Spvirit.Client

open Fallible PvdDecoder

/-- The elements of an array from one offset to another. -/
inductive Chain (post : Nat → DecodedValue × Nat → Prop) : Nat → List DecodedValue → Nat → Prop
  | nil (offset : Nat) : Chain post offset [] offset
  | cons {offset next stop : Nat} {v : DecodedValue} {vs : List DecodedValue} :
      post offset (v, next) → Chain post next vs stop → Chain post offset (v :: vs) stop

section

variable {dec : PvdDecoder} {post : Nat → DecodedValue × Nat → Prop} {item : Nat → DecodeM (DecodedValue × Nat)}

theorem decodeItems_chain (each : ∀ offset, Returns (item offset) (post offset)) (count offset : Nat) :
    Returns (decodeItems item count offset) fun r => r.1.length = count ∧ Chain post offset r.1 r.2 := by
  induction count generalizing offset with
  | zero => exact .pure ⟨rfl, .nil offset⟩
  | succ count ih =>
    refine (each offset).bind fun r here => ?_
    refine (ih r.2).bind fun rest later => ?_
    exact .pure ⟨by rw [List.length_cons, later.1], .cons here later.2⟩

theorem decodeArray_chain {data : List UInt8} {minElem limit : Nat} {kind : String}
    (post : Nat → DecodedValue × Nat → Prop) (each : ∀ offset, Returns (item offset) (post offset)) :
    Returns (dec.decodeArray data minElem kind limit item) fun r =>
      ∃ vs start, r.1 = .array vs ∧ vs.length ≤ limit ∧ (pushSize vs.length dec.isBe).length ≤ start ∧
        Chain post start vs r.2 := by
  refine .bindExcept fun size sized => ?_
  obtain ⟨count, start⟩ := size
  have prefixed := pushSize_length_le sized
  refine .bindExcept fun _ checked => ?_
  have within : count ≤ limit := by
    unfold checkArrayCount at checked
    split_ifs at checked
    omega
  refine (decodeItems_chain each count start).bind fun r chain => ?_
  exact .pure ⟨r.1, start, rfl, by rw [chain.1]; exact within, by rw [chain.1]; exact prefixed, chain.2⟩

/-- Elements that were encoded one by one: the decoder takes at least their bytes, and no
more only if each is carried. -/
theorem chain_encoded {given : Json → DecodedValue → Prop} {encode : Json → Except String (List UInt8)}
    {carried : Json → Prop} {start stop : Nat} {js : List Json} {vs : List DecodedValue} {body : List UInt8}
    (each : ∀ offset v next j b, post offset (v, next) → given j v → encode j = .ok b →
      offset + b.length ≤ next ∧ (next ≤ offset + b.length → carried j))
    (chain : Chain post start vs stop) (all : List.Forall₂ given js vs) (encoded : encodeItems encode js = .ok body) :
    start + body.length ≤ stop ∧ (stop ≤ start + body.length → ∀ j ∈ js, carried j) := by
  induction chain generalizing js body with
  | nil offset =>
    cases all
    cases encoded
    exact ⟨by simp, by simp⟩
  | @cons offset next stop v vs here chain ih =>
    obtain ⟨j, js, gives, others, rfl⟩ := List.forall₂_cons_right_iff.mp all
    cases head : encode j with
    | error e => simp [encodeItems, head, bind, Except.bind] at encoded
    | ok b =>
      cases tail : encodeItems encode js with
      | error e => simp [encodeItems, head, tail, bind, Except.bind] at encoded
      | ok bs =>
        simp only [encodeItems, head, tail, bind, Except.bind, pure, Except.pure, Except.ok.injEq] at encoded
        obtain ⟨least, carry⟩ := each offset v next j b here gives head
        obtain ⟨later, carryLater⟩ := ih others tail
        rw [← encoded, List.length_append]
        refine ⟨by omega, fun exact' => ?_⟩
        exact List.forall_mem_cons.mpr ⟨carry (by omega), carryLater (by omega)⟩

end

mutual

def DistinctFields : List (FieldDescOf FieldType) → Prop
  | [] => True
  | f :: fs => (∀ g ∈ fs, g.name ≠ f.name) ∧ DistinctType f.fieldType ∧ DistinctFields fs

def DistinctType : FieldType → Prop
  | .structure desc => DistinctFields desc.fields
  | .structureArray desc => DistinctFields desc.fields
  | .union fields => DistinctFields fields
  | .unionArray fields => DistinctFields fields
  | _ => True

end

section

variable {ops : JsonOps} {isBe : Bool} {fuel : Nat}

variable (ops isBe) in
/-- A value the decoder returned was read from at least the bytes its input is encoded to,
and from just as many only if the input is carried. -/
def Takes (levels : Nat) (ft : FieldType) (v : DecodedValue) (consumed : Nat) : Prop :=
  ∀ whole j name bytes, Given ft j v → encodeTyped ops isBe whole ft j name = .ok bytes →
    bytes.length ≤ consumed ∧ (whole = false → consumed ≤ bytes.length → Carried DecodeLimits.default ft levels j)

variable (ops isBe) in
/-- All values decoded with that much fuel. -/
def TakesAll (fuel : Nat) : Prop :=
  ∀ data ft, DistinctType ft → Returns ((PvdDecoder.new isBe).decodeValueFuel fuel data ft) fun r =>
    ∃ below, fuel = below + 1 ∧ Takes ops isBe below ft r.1 r.2

theorem decodeScalar_consumed {data : List UInt8} {tc : TypeCode} {v : DecodedValue} {consumed : Nat}
    (decoded : (PvdDecoder.new isBe).decodeScalar data tc = .ok (v, consumed)) : tc.size = some consumed := by
  unfold decodeScalar at decoded
  split at decoded
  · cases decoded
  · rename_i size width
    split_ifs at decoded
    split at decoded
    · cases decoded
      exact width
    · cases decoded

theorem scalar_takes {data : List UInt8} {tc : TypeCode} {v : DecodedValue} {consumed : Nat} {j : Json} {name : String}
    {bytes : List UInt8} (decoded : (PvdDecoder.new isBe).decodeScalar data tc = .ok (v, consumed))
    (given : GivenScalar tc j v) (encoded : encodeScalarValue ops isBe tc j name = .ok bytes) :
    bytes.length = consumed := by
  obtain ⟨code, rfl⟩ := encodeScalarValue_given encoded given
  obtain ⟨size, width, -, -, pushed⟩ := scalar_word code
  rw [pushed, ByteOrder.toBytes_length]
  exact Option.some.inj (width.symm.trans (decodeScalar_consumed decoded))

theorem string_takes {data : List UInt8} {s : String} {consumed : Nat} {j : Json} {name : String} {bytes : List UInt8}
    (decoded : decodeStringPrefixed data isBe = .ok (s, consumed)) (given : GivenString j (.string s))
    (encoded : encodeStringValue isBe j name = .ok bytes) :
    bytes.length ≤ consumed ∧ ∃ t, j = .string t ∧ Short t := by
  obtain ⟨t, rfl, same⟩ := given
  cases same
  cases encoded
  exact ⟨pushString_length_le decoded, s, rfl, decodeStringPrefixed_short decoded⟩

/-- An input that is encoded whole gives the first field. -/
theorem given_nonempty {f : FieldDesc} {fs : List FieldDesc} {values : List (String × Json)} {bytes : List UInt8}
    (given : GivenFields (f :: fs) values []) (encoded : encodeStructureFull ops isBe (f :: fs) values = .ok bytes) :
    False := by
  rw [GivenFields] at given
  rw [encodeStructureFull] at encoded
  cases found : Json.get values f.name with
  | none => simp [found] at encoded
  | some j =>
    rw [found] at given
    obtain ⟨v, rest, impossible, -⟩ := given
    cases impossible

theorem decodeFields_takes (takes : TakesAll ops isBe fuel) {data : List UInt8} (fs : List FieldDesc)
    (distinct : DistinctFields fs) (offset : Nat) :
    Returns (decodeFields ((PvdDecoder.new isBe).decodeValueFuel fuel) data fs offset) fun r =>
      ∀ values bytes, GivenFields fs values r.1 → encodeStructureFull ops isBe fs values = .ok bytes →
        offset + bytes.length ≤ r.2 := by
  induction fs generalizing offset with
  | nil =>
    refine .pure fun values bytes _ encoded => ?_
    cases encoded
    simp
  | cons f fs ih =>
    -- Both ways to stop early leave the field out, which the input gives.
    unfold decodeFields
    split_ifs
    · exact .pure fun values bytes given encoded => (given_nonempty given encoded).elim
    · refine (takes _ f.fieldType distinct.2.1).attempt.bind fun result here => ?_
      split
      · exact .pure fun values bytes given encoded => (given_nonempty given encoded).elim
      · rename_i value consumed
        obtain ⟨below, -, least⟩ := here _ rfl
        refine (ih distinct.2.2 (offset + consumed)).bind fun r later => ?_
        refine .pure fun values bytes given encoded => ?_
        rw [GivenFields] at given
        rw [encodeStructureFull] at encoded
        cases found : Json.get values f.name with
        | none => simp [found] at encoded
        | some j =>
          rw [found] at given encoded
          obtain ⟨v, rest, same, own, others⟩ := given
          cases same
          cases head : encodeTyped ops isBe true f.fieldType j f.name with
          | error e => simp [head, bind, Except.bind] at encoded
          | ok b =>
            cases tail : encodeStructureFull ops isBe fs values with
            | error e => simp [head, tail, bind, Except.bind] at encoded
            | ok bs =>
              simp only [head, tail, bind, Except.bind, pure, Except.pure, Except.ok.injEq] at encoded
              have first := (least true j f.name b own head).1
              have second := later values bs others tail
              rw [← encoded, List.length_append]
              omega

theorem structure_takes (takes : TakesAll ops isBe fuel) (data : List UInt8) (desc : StructureDesc)
    (distinct : DistinctFields desc.fields) :
    Returns ((PvdDecoder.new isBe).decodeStructureWith ((PvdDecoder.new isBe).decodeValueFuel fuel) data desc) fun r =>
      ∃ vs, r.1 = .structure vs ∧ ∀ values bytes, GivenFields desc.fields values vs →
        encodeStructureFull ops isBe desc.fields values = .ok bytes → bytes.length ≤ r.2 := by
  refine returns_scope ((decodeFields_takes takes desc.fields distinct 0).bind fun r least => ?_)
  refine .pure ⟨r.1, rfl, fun values bytes given encoded => ?_⟩
  have := least values bytes given encoded
  omega

theorem member_at {fields : List FieldDesc} {selector index levels : Nat} {field : FieldDesc} {k : Json}
    {w : DecodedValue} (distinct : DistinctFields fields) (found : fields[selector]? = some field) :
    DistinctType field.fieldType ∧ (GivenMember fields field.name k w ↔ Given field.fieldType k w) ∧
      encodeMember ops isBe fields index field.name k
        = some ((encodeTyped ops isBe false field.fieldType k field.name).bind
            fun bytes => .ok (pushSize (index + selector) isBe ++ bytes)) ∧
      (CarriedMember DecodeLimits.default fields index levels field.name k ↔
        index + selector < 2 ^ 32 ∧ ∃ below, levels = below + 1 ∧ Carried DecodeLimits.default field.fieldType below k) := by
  induction fields generalizing selector index with
  | nil => cases found
  | cons f fs ih =>
    cases selector with
    | zero =>
      cases found
      refine ⟨distinct.2.1, ?_, ?_, ?_⟩
      · rw [GivenMember, if_pos rfl]
      · rw [encodeMember, if_pos rfl]
        rfl
      · rw [CarriedMember, if_pos rfl, Nat.add_zero]
    | succ selector =>
      rw [List.getElem?_cons_succ] at found
      have apart : f.name ≠ field.name := (distinct.1 field (List.mem_of_getElem? found)).symm
      obtain ⟨inner, given, encode, carried⟩ := @ih selector (index + 1) distinct.2.2 found
      have shift : index + 1 + selector = index + (selector + 1) := by omega
      refine ⟨inner, ?_, ?_, ?_⟩
      · rw [GivenMember, if_neg apart]
        exact given
      · rw [encodeMember, if_neg apart, encode, shift]
      · rw [CarriedMember, if_neg apart, carried, shift]

theorem unionItem_takes (takes : TakesAll ops isBe fuel) (data : List UInt8) {fields : List FieldDesc}
    (distinct : DistinctFields fields) (offset : Nat) :
    Returns ((PvdDecoder.new isBe).unionItem ((PvdDecoder.new isBe).decodeValueFuel fuel) data fields offset) fun r =>
      ∀ name k w bytes, r.1 = .structure [(name, w)] → GivenMember fields name k w →
        encodeMember ops isBe fields 0 name k = some (.ok bytes) →
        offset + bytes.length ≤ r.2 ∧
          (r.2 ≤ offset + bytes.length → CarriedMember DecodeLimits.default fields 0 fuel name k) := by
  refine .bindExcept fun size sized => ?_
  obtain ⟨selector, consumed⟩ := size
  have prefixed : (pushSize selector isBe).length ≤ consumed := pushSize_length_le sized
  have small : selector < 2 ^ 32 := decodeSizePrefixed_lt sized
  refine .bindExcept fun field chosen => ?_
  have found : fields[selector]? = some field := by
    unfold selectField at chosen
    split at chosen
    · rename_i f found
      cases chosen
      exact found
    · cases chosen
  have inner : DistinctType field.fieldType := (@member_at ops isBe _ _ 0 0 _ .null .null distinct found).1
  refine (takes _ field.fieldType inner).bind fun r least => ?_
  obtain ⟨below, rfl, least⟩ := least
  refine .pure fun name k w bytes same given encoded => ?_
  cases same
  obtain ⟨-, gives, encode, carried⟩ := @member_at ops isBe _ _ 0 (below + 1) _ k r.1 distinct found
  rw [encode, Nat.zero_add] at encoded
  cases value : encodeTyped ops isBe false field.fieldType k field.name with
  | error e => simp [value, Except.bind] at encoded
  | ok body =>
    simp only [value, Except.bind, Option.some.injEq, Except.ok.injEq] at encoded
    obtain ⟨enough, carry⟩ := least false k field.name body (gives.mp given) value
    rw [← encoded, List.length_append]
    dsimp only
    refine ⟨by omega, fun exactly => carried.mpr ⟨by omega, below, rfl, carry rfl (by omega)⟩⟩

/-- An array takes at least its bytes, and no more only if each element is carried. -/
theorem array_takes (expects name : String) {given : Json → DecodedValue → Prop} {encode : Json → Except String (List UInt8)}
    {carried : Json → Prop} {post : Nat → DecodedValue × Nat → Prop} {js : List Json} {vs : List DecodedValue}
    {start stop : Nat} {bytes : List UInt8}
    (each : ∀ offset v next j b, post offset (v, next) → given j v → encode j = .ok b →
      offset + b.length ≤ next ∧ (next ≤ offset + b.length → carried j))
    (prefixed : (pushSize vs.length isBe).length ≤ start) (chain : Chain post start vs stop)
    (all : List.Forall₂ given js vs) (encoded : encodeArray isBe expects encode (.array js) name = .ok bytes) :
    js.length = vs.length ∧ bytes.length ≤ stop ∧ (stop ≤ bytes.length → ∀ j ∈ js, carried j) := by
  obtain ⟨body, items, rfl⟩ := encodeArray_items encoded
  obtain ⟨least, carry⟩ := chain_encoded each chain all items
  have length := all.length_eq
  rw [List.length_append, length]
  exact ⟨rfl, by omega, fun exactly => carry (by omega)⟩

theorem structureItem_takes (takes : TakesAll ops isBe fuel) (data : List UInt8) (desc : StructureDesc)
    (distinct : DistinctFields desc.fields) (offset : Nat) :
    Returns ((PvdDecoder.new isBe).structureItem ((PvdDecoder.new isBe).decodeValueFuel fuel) data desc offset) fun r =>
      ∃ vs, r.1 = .structure vs ∧ ∀ values bytes, GivenFields desc.fields values vs →
        encodeStructureFull ops isBe desc.fields values = .ok bytes → offset + 1 + bytes.length ≤ r.2 := by
  unfold structureItem
  split
  · exact .throw
  · refine .pure ⟨[], rfl, fun values bytes given encoded => ?_⟩
    -- A structure all of whose fields are given has none.
    cases fields : desc.fields with
    | nil =>
      rw [fields] at encoded
      cases encoded
      simp
    | cons f fs =>
      rw [fields] at given encoded
      exact (given_nonempty given encoded).elim
  · refine (structure_takes takes _ desc distinct).bind fun r least => ?_
    obtain ⟨vs, same, least⟩ := least
    refine .pure ⟨vs, same, fun values bytes given encoded => ?_⟩
    have := least values bytes given encoded
    dsimp only
    omega

theorem decodeValueWith_takes (takes : TakesAll ops isBe fuel) (data : List UInt8) (ft : FieldType)
    (distinct : DistinctType ft) :
    Returns ((PvdDecoder.new isBe).decodeValueWith ((PvdDecoder.new isBe).decodeValueFuel fuel) data ft) fun r =>
      Takes ops isBe fuel ft r.1 r.2 := by
  cases ft with
  | scalar tc =>
    refine .ofExcept fun r decoded whole j name bytes given encoded => ?_
    have length := scalar_takes decoded given encoded
    exact ⟨le_of_eq length, fun _ _ => ⟨r.1, given⟩⟩
  | string | boundedString _ =>
    refine .bindExcept fun r decoded => .pure fun whole j name bytes given encoded => ?_
    obtain ⟨least, short⟩ := string_takes decoded given encoded
    exact ⟨least, fun _ _ => short⟩
  | scalarArray tc =>
    refine (decodeArray_chain (fun offset r => ∃ consumed, r.2 = offset + consumed ∧
      (PvdDecoder.new isBe).decodeScalar (data.drop offset) tc = .ok (r.1, consumed)) fun offset =>
        .bindExcept fun r decoded => .pure ⟨r.2, rfl, decoded⟩).weaken ?_
    rintro r ⟨vs, start, same, within, prefixed, chain⟩ whole j name bytes ⟨js, ws, rfl, same', all⟩ encoded
    cases same.symm.trans same'
    obtain ⟨length, least, carry⟩ := array_takes "expects array" name (fun offset v next k b item given value => by
      obtain ⟨consumed, rfl, decoded⟩ := item
      have size := scalar_takes decoded given value
      exact ⟨by omega, fun _ => (⟨v, given⟩ : ∃ v, GivenScalar tc k v)⟩) prefixed chain all encoded
    exact ⟨least, fun _ exactly => ⟨js, rfl, by rw [length]; exact within, carry exactly⟩⟩
  | stringArray =>
    refine (decodeArray_chain (fun offset r => ∃ s consumed, r = (.string s, offset + consumed) ∧
      decodeStringPrefixed (data.drop offset) isBe = .ok (s, consumed)) fun offset =>
        .bindExcept fun r decoded => .pure ⟨r.1, r.2, rfl, decoded⟩).weaken ?_
    rintro r ⟨vs, start, same, within, prefixed, chain⟩ whole j name bytes ⟨js, ws, rfl, same', all⟩ encoded
    cases same.symm.trans same'
    obtain ⟨length, least, carry⟩ := array_takes "expects array" name (fun offset v next k b item given value => by
      obtain ⟨s, consumed, pair, decoded⟩ := item
      cases pair
      obtain ⟨size, short⟩ := string_takes decoded given value
      exact ⟨by omega, fun _ => short⟩) prefixed chain all encoded
    exact ⟨least, fun _ exactly => ⟨js, rfl, by rw [length]; exact within, carry exactly⟩⟩
  | «structure» desc =>
    refine (structure_takes takes data desc distinct).weaken ?_
    rintro r ⟨vs, same, least⟩ whole j name bytes ⟨obj, ws, rfl, same', given⟩ encoded
    cases whole with
    | false => cases encoded
    | true =>
      cases same.symm.trans same'
      exact ⟨least obj bytes given encoded, by simp⟩
  | structureArray desc =>
    refine (decodeArray_chain _ (structureItem_takes takes data desc distinct)).weaken ?_
    rintro r ⟨vs, start, same, within, prefixed, chain⟩ whole j name bytes ⟨js, ws, rfl, same', all⟩ encoded
    cases same.symm.trans same'
    obtain ⟨length, least, carry⟩ := @array_takes isBe "expects array" name _ _ (fun _ => False) _ _ _ _ _ _
      (fun offset v next k b item given value => by
        obtain ⟨xs, rfl, size⟩ := item
        obtain ⟨obj, ws, rfl, pair, given⟩ := given
        cases pair
        have := size obj b given value
        exact ⟨by omega, fun exactly => by omega⟩) prefixed chain all encoded
    refine ⟨least, fun _ exactly => ?_⟩
    have none : js = [] := List.eq_nil_iff_forall_not_mem.mpr (carry exactly)
    rw [Carried, none]
  | union fields =>
    refine (unionItem_takes takes data distinct 0).weaken ?_
    rintro r least whole j name bytes ⟨selected, k, w, rfl, same, given⟩ encoded
    obtain ⟨enough, carry⟩ := least selected k w bytes same given (encodeUnion_member encoded)
    exact ⟨by omega, fun _ exactly => ⟨selected, k, rfl, carry (by omega)⟩⟩
  | unionArray fields =>
    refine (decodeArray_chain _ (unionItem_takes takes data distinct)).weaken ?_
    rintro r ⟨vs, start, same, within, prefixed, chain⟩ whole j name bytes ⟨js, ws, rfl, same', all⟩ encoded
    cases same.symm.trans same'
    obtain ⟨length, least, carry⟩ := @array_takes isBe "expects array for union[]" name _ _
      (fun u => ∃ name k, u = .object [(name, k)] ∧ CarriedMember DecodeLimits.default fields 0 fuel name k) _ _ _ _ _ _
      (fun offset v next k b item given value => by
        obtain ⟨selected, l, x, rfl, rfl, given⟩ := given
        obtain ⟨size, inner⟩ := item selected l x b rfl given (encodeUnion_member value)
        exact ⟨size, fun exactly => ⟨selected, l, rfl, inner exactly⟩⟩) prefixed chain all encoded
    exact ⟨least, fun _ exactly => ⟨js, rfl, by rw [length]; exact within, carry exactly⟩⟩
  | variant | variantArray => exact .always fun r whole j name bytes given => given.elim

theorem decodeValue_takes (fuel : Nat) : TakesAll ops isBe fuel := by
  induction fuel with
  | zero => exact fun data ft distinct => returns_scope (returns_enter .throw)
  | succ fuel ih =>
    intro data ft distinct
    refine returns_scope (returns_enter ((decodeValueWith_takes ih data ft distinct).weaken ?_))
    exact fun r takes => ⟨fuel, rfl, takes⟩

end

end Spvirit.Client
