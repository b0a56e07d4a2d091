import Spvirit.Codec.DescReads
import Spvirit.Codec.PublicCalls

/-! What the parser returns can be written down again, the types of the registry included. -/

namespace Spvirit

open Fallible

theorem fromUtf8_length {bytes : List UInt8} {s : String} (read : fromUtf8 bytes = some s) :
    (utf8 s).length = bytes.length := by
  unfold fromUtf8 String.fromUTF8? at read
  split_ifs at read with valid
  cases read
  rfl

namespace PvdDecoder

variable {dec : PvdDecoder}

theorem decodeStringPrefixed_short {data : List UInt8} {isBe : Bool} {r : String × Nat}
    (decoded : decodeStringPrefixed data isBe = .ok r) : Short r.1 := by
  unfold decodeStringPrefixed at decoded
  cases sized : decodeSizePrefixed data isBe with
  | error e => rw [sized] at decoded; cases decoded
  | ok p =>
    obtain ⟨size, sizeBytes⟩ := p
    have small := decodeSizePrefixed_lt sized
    rw [sized] at decoded
    change (if size = 0 then _ else _) = _ at decoded
    split_ifs at decoded with empty
    · cases decoded
      exact Nat.two_pow_pos 32
    · split at decoded
      · cases decoded
      case h_2 s read =>
        cases decoded
        have length := fromUtf8_length read
        have part := List.length_take_le size (data.drop sizeBytes)
        change (utf8 s).length < 2 ^ 32
        omega

/-- Every registry entry is a type the parser can return. -/
def RegistryExpressible (dec : PvdDecoder) (c : Cells) : Prop :=
  ∀ key ft height nodes, c.registry key = some (ft, height, nodes) → Expressible dec.limits ft

/-- The registry stays expressible, whatever the outcome. -/
abbrev Expresses (dec : PvdDecoder) {α : Type} (m : DecodeM α) (post : α → Prop) : Prop :=
  Maintains dec.RegistryExpressible m post

section

variable {α : Type} {m : DecodeM α} {post : α → Prop}

theorem Expresses.enter (inner : dec.Expresses m post) : dec.Expresses (dec.enter m) post := by
  intro c ok
  unfold PvdDecoder.enter
  split_ifs
  · exact ⟨ok, fun _ same => by cases same⟩
  · exact inner { c with depth := c.depth + 1 } ok

theorem Expresses.scope {inputLen : Nat} (inner : dec.Expresses m post) :
    dec.Expresses (dec.nodeBudgetScope inputLen m) post := by
  intro c ok
  unfold nodeBudgetScope
  split_ifs
  · exact inner { c with nodes := 0, nodeLimit := _, budgetScope := c.budgetScope + 1 } ok
  · exact inner { c with budgetScope := c.budgetScope + 1 } ok

theorem expresses_charge (n : Nat) : dec.Expresses (chargeNodes n) fun _ => True := by
  intro c ok
  unfold chargeNodes
  dsimp only
  split_ifs
  · exact ⟨ok, fun _ _ => trivial⟩
  · exact ⟨ok, fun _ _ => trivial⟩

theorem expresses_checkHeight (height : Nat) : dec.Expresses (dec.checkResolvedHeight height) fun _ => True := by
  intro c ok
  unfold checkResolvedHeight
  dsimp only
  split_ifs
  · exact ⟨ok, fun _ _ => trivial⟩
  · exact ⟨ok, fun _ _ => trivial⟩

theorem expresses_note (f : Resolved → Resolved) : dec.Expresses (note f) fun _ => True :=
  .modify fun _ ok => ok

theorem expresses_register {ft : FieldType} (key : UInt16) (expressible : Expressible dec.limits ft) :
    dec.Expresses (register key ft) fun _ => True := by
  refine .modify fun c ok other ft' height nodes entry => ?_
  dsimp only at entry
  by_cases same : other = key
  · subst same
    rw [Function.update_self] at entry
    cases entry
    exact expressible
  · rw [Function.update_of_ne same] at entry
    exact ok other ft' height nodes entry

end

section

variable {parse : List UInt8 → DecodeM (FieldType × Nat)}

/-- What a descriptor parse must satisfy. -/
def ParsesExpressible (dec : PvdDecoder) (parse : List UInt8 → DecodeM (FieldType × Nat)) : Prop :=
  ∀ data, dec.Expresses (parse data) fun r => Expressible dec.limits r.1

section

variable (parses : dec.ParsesExpressible parse) (data : List UInt8)

include parses

theorem parseFieldDescWith_expresses : dec.Expresses (dec.parseFieldDescWith parse data) fun r =>
      Short r.1.name ∧ Expressible dec.limits r.1.fieldType := by
  refine .scope ?_
  unfold fieldDescBody
  split_ifs
  · exact .throw
  · refine .bindExcept fun name named => ?_
    have short := decodeStringPrefixed_short named
    obtain ⟨name, consumed⟩ := name
    dsimp only
    split_ifs
    · exact .throw
    · exact (parses _).bind fun r expressible => .pure ⟨short, expressible⟩

/-- The field loop returns at most the announced number of fields. -/
theorem parseFields_expresses (count offset : Nat) : dec.Expresses (dec.parseFields parse data count offset) fun r =>
      r.1.length ≤ count ∧ FieldsExpressible dec.limits r.1 := by
  induction count generalizing offset with
  | zero => exact .pure ⟨le_rfl, trivial⟩
  | succ count ih =>
    unfold parseFields
    split_ifs
    · exact .pure ⟨Nat.zero_le _, trivial⟩
    · refine (parseFieldDescWith_expresses parses _).attempt.bind fun result parsed => ?_
      split
      · exact .pure ⟨Nat.zero_le _, trivial⟩
      · have ⟨short, expressible⟩ := parsed _ rfl
        refine (ih _).bind fun rest others => .pure ⟨?_, short, expressible, others.2⟩
        rw [List.length_cons]
        exact Nat.succ_le_succ others.1

theorem parseStructureDesc_expresses :
    dec.Expresses (dec.parseStructureDesc parse data) fun r => Expressible dec.limits (.structure r.1) := by
  refine .bindExcept fun id named => ?_
  have short := decodeStringPrefixed_short named
  obtain ⟨structId, consumed⟩ := id
  refine .bindExcept fun count sized => ?_
  obtain ⟨fieldCount, countConsumed⟩ := count
  have small := decodeSizePrefixed_lt sized
  dsimp only
  split
  · exact .throw
  case isFalse within =>
    refine (parseFields_expresses parses data fieldCount _).bind fun r fields => .pure ?_
    have few := fields.1
    refine ⟨?_, ?_, by change r.1.length ≤ _; omega, by change r.1.length < _; omega, fields.2⟩
    · by_cases empty : structId.isEmpty
      · simp [empty]
      · have : structId ≠ "" := fun same => empty (by rw [same]; rfl)
        simp [this]
    · by_cases empty : structId.isEmpty
      · simp [empty, Short]
      · simpa [empty] using short

end

theorem fromByte_fixed {base : UInt8} {tc : TypeCode} (text : base &&& 0xE7 ≠ 0x60)
    (code : TypeCode.fromByte base = some tc) : tc.size.isSome := by
  unfold TypeCode.fromByte at code
  split at code <;> first | exact absurd ‹base &&& 0xE7 = 0x60› text | (cases code; try rfl)

theorem scalarType_expressible {typeByte : UInt8} {ft : FieldType} {limits : DecodeLimits}
    (found : scalarType typeByte = .ok ft) : Expressible limits ft := by
  unfold scalarType at found
  split at found
  · cases found
    split <;> trivial
  case isFalse text =>
    have masked : (typeByte &&& 0xE7) &&& 0xE7 = typeByte &&& 0xE7 := by rw [UInt8.and_assoc, UInt8.and_self]
    split at found
    case h_1 tc code =>
      have fixed := fromByte_fixed (by rwa [masked]) code
      cases found
      split <;> exact fixed
    · cases found

theorem parseLiteral_expresses (parses : dec.ParsesExpressible parse) (typeByte : UInt8) (data : List UInt8) :
    dec.Expresses (dec.parseLiteral parse typeByte data) fun r => Expressible dec.limits r.1 := by
  have body : ∀ (tag : UInt8) (isArray : Bool) (g : StructureDesc → FieldType),
      (∀ desc, Expressible dec.limits (.structure desc) → Expressible dec.limits (g desc)) →
      dec.Expresses (ofExcept (bodyOffset data isArray tag) >>= fun offset =>
        dec.parseStructureDesc parse (data.drop offset) >>= fun r => pure (g r.1, offset + r.2))
        fun r => Expressible dec.limits r.1 :=
    fun tag isArray g wraps => .bindExcept fun offset _ =>
      (parseStructureDesc_expresses parses _).bind fun r expressible => .pure (wraps r.1 expressible)
  unfold parseLiteral
  split_ifs
  · exact .pure trivial
  · refine body _ _ (fun desc => if typeByte &&& 0x08 ≠ 0 then .structureArray desc else .structure desc) ?_
    intro desc expressible
    split_ifs <;> exact expressible
  · refine body _ _ (fun desc => if typeByte &&& 0x08 ≠ 0 then .unionArray desc.fields else .union desc.fields) ?_
    intro desc expressible
    split_ifs <;> exact expressible.2.2
  · exact .pure trivial
  · exact .pure trivial
  · exact .bindExcept fun _ _ => .pure trivial
  · have offset : dec.Expresses (dec.boundOffset typeByte data) fun _ => True := by
      unfold boundOffset
      split_ifs
      · exact .bindExcept fun _ _ => .pure trivial
      · exact .pure trivial
    exact offset.bind fun _ _ => .bindExcept fun ft found => .pure (scalarType_expressible found)

theorem parseTypeDescWith_expresses (parses : dec.ParsesExpressible parse) :
    dec.ParsesExpressible (dec.parseTypeDescWith parse) := by
  intro data
  unfold parseTypeDescWith
  split
  · exact .throw
  · exact (parses _).bind fun r expressible => (expresses_register _ expressible).bind fun _ _ => .pure expressible
  · refine .bindGet fun c ok => ?_
    split
    case h_1 entry =>
      exact (expresses_checkHeight _).bind fun _ _ => (expresses_charge _).bind fun _ _ =>
        (expresses_note _).bind fun _ _ => .pure (ok _ _ _ _ entry)
    · exact .throw
  · split_ifs
    · exact .throw
    · exact (expresses_charge _).bind fun _ _ => (expresses_note _).bind fun _ _ => parseLiteral_expresses parses _ _

end

theorem parseTypeDesc_expresses (fuel : Nat) : dec.ParsesExpressible (dec.parseTypeDesc fuel) := by
  induction fuel with
  | zero => exact fun data => .enter .throw
  | succ fuel ih => exact fun data => .enter (parseTypeDescWith_expresses ih data)

theorem parseIntrospectionFuel_expresses (fuel : Nat) (data : List UInt8) :
    dec.Expresses (dec.parseIntrospectionFuel fuel data) fun r => Expressible dec.limits (.structure r.1) := by
  induction fuel generalizing data with
  | zero => exact .scope (.enter .throw)
  | succ fuel ih =>
    refine .scope (.enter ?_)
    unfold parseIntrospectionWith
    split
    · exact .throw
    · exact (expresses_charge _).bind fun _ _ => (expresses_note _).bind fun _ _ =>
        (parseStructureDesc_expresses (parseTypeDesc_expresses _) _).bind fun r expressible => .pure expressible
    · exact (ih _).bind fun r expressible => (expresses_register _ expressible).bind fun _ _ => .pure expressible
    · refine .bindGet fun c ok => ?_
      split
      case h_1 entry =>
        exact (expresses_checkHeight _).bind fun _ _ => (expresses_charge _).bind fun _ _ =>
          (expresses_note _).bind fun _ _ => .pure (ok _ _ _ _ entry)
      · exact .throw
    · split_ifs
      · exact .throw
      · exact .throw

end PvdDecoder

end Spvirit
