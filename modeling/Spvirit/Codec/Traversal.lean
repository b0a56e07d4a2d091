import Spvirit.Codec.Bitset

/-! What holds of the steps of a decode and of whatever is made of such steps holds of every
decode of a value. -/

namespace Spvirit.PvdDecoder

open Fallible

/-- A property of computations that the steps of a decode have, and all that is made of them. Of a
type that is parsed on the way it is enough to know that it is noted. -/
structure Closed (dec : PvdDecoder) (P : (α : Type) → DecodeM α → Prop) : Prop where
  pure : ∀ {α : Type} (a : α), P α (pure a)
  ofExcept : ∀ {α : Type} (r : Except DecodeError α), P α (ofExcept r)
  bind : ∀ {α β : Type} {m : DecodeM α} {f : α → DecodeM β}, P α m → (∀ a, P β (f a)) → P β (m >>= f)
  attempt : ∀ {α : Type} {m : DecodeM α}, P α m → P (Option α) (attempt isHostile m)
  scope : ∀ {α : Type} {m : DecodeM α} {inputLen : Nat}, P α m → P α (dec.nodeBudgetScope inputLen m)
  enter : ∀ {α : Type} {m : DecodeM α}, P α m → P α (dec.enter m)
  variant : ∀ {β : Type} {data : List UInt8} {f : FieldType × Nat → DecodeM β}, (∀ r, P β (f r)) →
    P β (dec.parseTypeDesc dec.limits.maxDepth data >>= fun r => noteVariant r.1 >>= fun _ => f r)

variable {dec : PvdDecoder} {P : (α : Type) → DecodeM α → Prop} {data bitset : List UInt8} {counts : List Nat}

section

variable {decodeValue : List UInt8 → FieldType → DecodeM (DecodedValue × Nat)}
  {item : Nat → DecodeM (DecodedValue × Nat)} (closed : dec.Closed P)

include closed

theorem Closed.bindExcept {α β : Type} {r : Except DecodeError α} {f : α → DecodeM β} (next : ∀ a, P β (f a)) :
    P β (Fallible.ofExcept r >>= f) := closed.bind (closed.ofExcept r) next

theorem decodeItems_closed (items : ∀ offset, P _ (item offset)) (count offset : Nat) :
    P _ (decodeItems item count offset) := by
  induction count generalizing offset with
  | zero => exact closed.pure _
  | succ count ih => exact closed.bind (items _) fun _ => closed.bind (ih _) fun _ => closed.pure _

theorem decodeArray_closed {minElem limit : Nat} {kind : String} (items : ∀ offset, P _ (item offset)) :
    P _ (dec.decodeArray data minElem kind limit item) :=
  closed.bindExcept fun _ => closed.bindExcept fun _ =>
    closed.bind (decodeItems_closed closed items _ _) fun _ => closed.pure _

variable (decodes : ∀ data ft, P _ (decodeValue data ft))

include decodes

theorem decodeFields_closed (fields : List FieldDesc) (offset : Nat) :
    P _ (decodeFields decodeValue data fields offset) := by
  induction fields generalizing offset with
  | nil => exact closed.pure _
  | cons f fs ih =>
    rw [decodeFields]
    split
    · exact closed.pure _
    · refine closed.bind (closed.attempt (decodes _ _)) fun o => ?_
      cases o with
      | none => exact closed.pure _
      | some r => exact closed.bind (ih _) fun _ => closed.pure _

theorem structureBody_closed (data : List UInt8) (desc : StructureDesc) : P _ (structureBody decodeValue data desc) :=
  closed.bind (decodeFields_closed closed decodes _ _) fun _ => closed.pure _

theorem decodeStructureWith_closed (data : List UInt8) (desc : StructureDesc) :
    P _ (dec.decodeStructureWith decodeValue data desc) :=
  closed.scope (structureBody_closed closed decodes data desc)

theorem structureItem_closed (desc : StructureDesc) (offset : Nat) :
    P _ (dec.structureItem decodeValue data desc offset) := by
  unfold structureItem
  split
  · exact closed.ofExcept (.error _)
  · exact closed.pure _
  · exact closed.bind (decodeStructureWith_closed closed decodes _ _) fun _ => closed.pure _

theorem unionItem_closed (fields : List FieldDesc) (offset : Nat) :
    P _ (dec.unionItem decodeValue data fields offset) :=
  closed.bindExcept fun _ => closed.bindExcept fun _ => closed.bind (decodes _ _) fun _ => closed.pure _

theorem variantValue_closed (data : List UInt8) : P _ (dec.variantValue decodeValue data) := by
  unfold variantValue
  split
  · exact closed.ofExcept (.error _)
  · exact closed.pure _
  · exact closed.variant fun _ => closed.bind (decodes _ _) fun _ => closed.pure _

theorem decodeValueWith_closed (data : List UInt8) (ft : FieldType) :
    P _ (dec.decodeValueWith decodeValue data ft) := by
  cases ft with
  | scalar tc => exact closed.ofExcept _
  | string | boundedString _ => exact closed.bindExcept fun _ => closed.pure _
  | scalarArray _ | stringArray => exact decodeArray_closed closed fun _ => closed.bindExcept fun _ => closed.pure _
  | «structure» desc => exact decodeStructureWith_closed closed decodes _ _
  | structureArray desc => exact decodeArray_closed closed (structureItem_closed closed decodes desc)
  | union fields => exact unionItem_closed closed decodes fields 0
  | unionArray fields => exact decodeArray_closed closed (unionItem_closed closed decodes fields)
  | variant => exact variantValue_closed closed decodes data
  | variantArray => exact decodeArray_closed closed fun _ => closed.bind (decodes _ _) fun _ => closed.pure _

end

section

variable (closed : dec.Closed P)

include closed

theorem decodeValueFuel_closed (fuel : Nat) (data : List UInt8) (ft : FieldType) :
    P _ (dec.decodeValueFuel fuel data ft) := by
  induction fuel generalizing data ft with
  | zero => exact closed.scope (closed.enter (closed.ofExcept (.error _)))
  | succ fuel ih => exact closed.scope (closed.enter (decodeValueWith_closed closed ih data ft))

theorem decodeStructure_closed (data : List UInt8) (desc : StructureDesc) : P _ (dec.decodeStructure data desc) :=
  decodeStructureWith_closed closed (decodeValueFuel_closed closed _) data desc

theorem walkFields_closed {fields : List FieldDesc} (each : ∀ f ∈ fields, ∀ name offset bit,
      P _ (dec.walkField data bitset counts f.fieldType name offset bit)) (offset bit : Nat) :
    P _ (dec.walkFields data bitset counts fields offset bit) := by
  induction fields generalizing offset bit with
  | nil => exact closed.pure _
  | cons f fs ih =>
    obtain ⟨head, tail⟩ := List.forall_mem_cons.mp each
    rw [walkFields]
    refine closed.bind (head _ _ _) fun here => ?_
    split
    · exact closed.bind (ih tail _ _) fun _ => closed.pure _
    · exact closed.pure _

theorem walkLeaf_closed (ft : FieldType) (name : String) (offset bit : Nat) :
    P _ (dec.walkLeaf data bitset ft name offset bit) := by
  unfold walkLeaf
  split_ifs
  · exact closed.pure _
  · refine closed.bind (closed.attempt (decodeValueFuel_closed closed _ _ _)) fun o => ?_
    cases o <;> exact closed.pure _
  · exact closed.pure _

theorem walkWhole_closed (desc : StructureDesc) (name : String) (offset next : Nat) :
    P _ (dec.walkWhole data desc name offset next) := by
  unfold walkWhole
  split_ifs
  · refine closed.bind (closed.attempt (decodeStructure_closed closed _ _)) fun o => ?_
    cases o <;> exact closed.pure _
  · exact closed.pure _

theorem walkField_closed (ft : FieldType) : ∀ name offset bit,
    P _ (dec.walkField data bitset counts ft name offset bit) := by
  induction ft with
  | struct desc each =>
    intro name offset bit
    rw [walkField]
    split
    · exact walkWhole_closed closed _ _ _ _
    · split
      · refine closed.bind (walkFields_closed closed each _ _) fun inner => ?_
        split <;> exact closed.pure _
      · exact closed.pure _
  | _ => exact fun name offset bit => walkLeaf_closed closed _ _ _ _

theorem bitsetBody_closed (desc : StructureDesc) : P _ (dec.bitsetBody data desc bitset) := by
  have walk : P _ (dec.bitsetWalk data desc bitset) :=
    closed.bind (walkFields_closed closed (fun f _ => walkField_closed closed f.fieldType) _ _) fun _ => closed.pure _
  unfold bitsetBody
  split
  · refine closed.bind (closed.attempt (decodeStructure_closed closed data desc)) fun o => ?_
    cases o with
    | none => exact walk
    | some r => exact closed.pure _
  · exact walk

end

end Spvirit.PvdDecoder
