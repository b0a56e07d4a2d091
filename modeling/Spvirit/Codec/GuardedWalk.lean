import Spvirit.Codec.GuardedValue
import Spvirit.Codec.PublicCalls
import Spvirit.Codec.WalkExtent

/-! No public decode call panics, nor reports more bytes than it was given. -/

namespace Spvirit

open ByteOrder Fallible Machine

namespace PvdDecoder

variable {dec : PvdDecoder} {data bitset : List UInt8} {counts more : List Nat}

theorem anyBits_eq (start count i : Nat) (fits : start + (i + count) ≤ 2 ^ 64) :
    Guarded.anyBits bitset start count i = pure ((List.range count).any fun j => bitAt bitset (start + (i + j))) := by
  induction count generalizing i with
  | zero => rfl
  | succ count ih =>
    have later := ih (i + 1) (by omega)
    rw [Guarded.anyBits, add_bind (by omega), later, List.range_succ_eq_map, List.any_cons, List.any_map, Nat.add_zero]
    have shift : ((fun j => bitAt bitset (start + (i + j))) ∘ Nat.succ) = fun j => bitAt bitset (start + (i + 1 + j)) := by
      funext j
      simp only [Function.comp_apply, Nat.succ_eq_add_one]
      congr 2
      omega
    rw [shift]
    cases bitAt bitset (start + i) <;> rfl

theorem walkLeaf_agrees (fit : dec.limits.Fit) (small : data.length < 2 ^ 63) (ft : FieldType) (name : String)
    (offset : Nat) {bit : Nat} (fits : bit + 1 < 2 ^ 64) :
    dec.Agrees 1 (Guarded.walkLeaf dec data bitset ft name offset bit) (dec.walkLeaf data bitset ft name offset bit) := by
  intro c placed
  rw [Guarded.walkLeaf, PvdDecoder.walkLeaf, add_bind fits]
  refine ite_agrees (fun _ => ite_agrees (fun _ => rfl) fun inside => ?_) fun _ => rfl
  rw [sliceFrom_bind (by omega)]
  have value := (decodeValueFuel_alike fit dec.limits.maxDepth).agrees _ ft (drop_small small offset) c
    (placed.loosen (by omega))
  refine bind_lift (attempt_lift value) fun o t ran => ?_
  have extent := (decodeValue_within (data.drop offset) ft).attempt _ _ _ ran
  rcases o with _ | ⟨v, consumed⟩
  · rfl
  · have short := extent _ rfl
    rw [List.length_drop] at short
    dsimp only at short ⊢
    rw [add_bind (by omega)]
    rfl

theorem walkWhole_agrees (fit : dec.limits.Fit) (small : data.length < 2 ^ 63) (desc : StructureDesc) (name : String)
    (offset next : Nat) :
    dec.Agrees 1 (Guarded.walkWhole dec data desc name offset next) (dec.walkWhole data desc name offset next) := by
  intro c placed
  unfold Guarded.walkWhole PvdDecoder.walkWhole
  refine ite_agrees (fun inside => ?_) fun _ => rfl
  rw [sliceFrom_bind (by omega)]
  refine bind_lift (attempt_lift (decodeStructure_agrees fit (drop_small small offset) desc c placed)) fun o t ran => ?_
  have extent := (decodeStructure_within (data.drop offset) desc).attempt _ _ _ ran
  rcases o with _ | ⟨v, consumed⟩
  · rfl
  · have short := extent _ rfl
    rw [List.length_drop] at short
    dsimp only at short ⊢
    rw [add_bind (by omega)]
    rfl

theorem walkFields_agrees {fs : List FieldDesc}
    (each : ∀ f ∈ fs, ∀ name offset k, offset ≤ data.length → CountsAt counts k f.fieldType →
      k + 2 + countNested f.fieldType < 2 ^ 64 →
      dec.Agrees 1 (Guarded.walkField dec data bitset counts f.fieldType name offset (k + 1))
        (dec.walkField data bitset counts f.fieldType name offset (k + 1)))
    {offset k : Nat} (inside : offset ≤ data.length) (aligned : counts.drop k = subtreeFieldCounts fs ++ more)
    (fits : k + 1 + countFields fs < 2 ^ 64) :
    dec.Agrees 1 (Guarded.walkFields dec data bitset counts fs offset (k + 1))
      (dec.walkFields data bitset counts fs offset (k + 1)) := by
  induction fs generalizing offset k with
  | nil => exact .pure _
  | cons f fs ih =>
    intro c placed
    obtain ⟨head, tail⟩ := List.forall_mem_cons.mp each
    obtain ⟨here, behind⟩ := countsAt_cons aligned
    rw [countFields] at fits
    rw [Guarded.walkFields, PvdDecoder.walkFields]
    refine Agrees.bind placed (head f.name offset k inside here (by omega) c placed)
      (walkField_closed frugal_closed f.fieldType _ _ _ c placed.good) fun w t ran placed' _ => ?_
    have landed := walkField_lands f.fieldType f.name offset k inside here _ _ _ ran
    refine ite_agrees (fun finished => ?_) fun _ => rfl
    have bit := landed.2 finished
    have next : w.bitOffset = k + 1 + countNested f.fieldType + 1 := by omega
    rw [next]
    exact bind_lift (ih tail landed.1 behind (by omega) t placed') fun _ _ _ => rfl

theorem walkField_agrees (fit : dec.limits.Fit) (small : data.length < 2 ^ 63) (ft : FieldType) :
    ∀ name offset k, offset ≤ data.length → CountsAt counts k ft → k + 2 + countNested ft < 2 ^ 64 →
      dec.Agrees 1 (Guarded.walkField dec data bitset counts ft name offset (k + 1))
        (dec.walkField data bitset counts ft name offset (k + 1)) := by
  induction ft with
  | struct desc each =>
    intro name offset k inside here fits c placed
    have count : counts.getD (k + 1 - 1) 0 = countNested (.structure desc) := by
      rw [Nat.add_sub_cancel, List.getD_eq_getElem?_getD, here.own]
      rfl
    obtain ⟨more, below⟩ := here.below
    rw [Guarded.walkField, PvdDecoder.walkField, count, add_bind (by omega), sub_bind (by omega), Nat.add_sub_cancel,
      index_bind here.own, anyBits_eq _ _ _ (by omega), pure_bind]
    simp only [Nat.zero_add]
    refine ite_agrees (fun _ => ?_) fun _ => ite_agrees (fun _ => ?_) fun _ => ?_
    · rw [add_bind (by omega)]
      exact walkWhole_agrees fit small desc name offset _ c placed
    · rw [countNested] at fits
      refine bind_lift (walkFields_agrees each inside below (by omega) c placed) fun w t _ => ?_
      exact ite_agrees (fun _ => rfl) fun _ => rfl
    · rw [add_bind (by omega)]
      rfl
  | _ => exact fun name offset k inside _ fits => walkLeaf_agrees fit small _ name offset (by omega)

/-- A descriptor whose bits a machine can number. -/
def Numbered (desc : StructureDesc) : Prop := 1 + countStructureFields desc < wordBound

theorem bitsetBody_agrees (fit : dec.limits.Fit) (small : data.length < 2 ^ 63) {desc : StructureDesc}
    (numbered : Numbered desc) :
    dec.Agrees 1 (Guarded.bitsetBody dec data desc bitset) (dec.bitsetBody data desc bitset) := by
  have walk : dec.Agrees 1 (Guarded.bitsetWalk dec data desc bitset) (dec.bitsetWalk data desc bitset) := by
    intro c placed
    unfold Numbered countStructureFields wordBound at numbered
    rw [Guarded.bitsetWalk, if_neg (by unfold countStructureFields wordBound; omega)]
    exact bind_lift (walkFields_agrees (fun f _ => walkField_agrees fit small f.fieldType) (Nat.zero_le _)
      (List.append_nil _).symm (by omega) c placed) fun _ _ _ => rfl
  intro c placed
  unfold Guarded.bitsetBody PvdDecoder.bitsetBody
  refine ite_agrees (fun _ => ?_) fun _ => walk c placed
  refine Agrees.bind placed (attempt_lift (decodeStructure_agrees fit small desc c placed))
    (decodeStructure_closed frugal_closed _ desc _ placed.good).attempt fun o t _ placed' _ => ?_
  rcases o with _ | r
  · exact walk t placed'
  · rfl

theorem bitsetScope_agrees {c : Cells} (fit : dec.limits.Fit) (idle : dec.Idle c) (nothing : c.resolved = .nothing)
    (small : data.length < 2 ^ 63) {desc : StructureDesc} (numbered : Numbered desc) (bitset : List UInt8) :
    Guarded.decodeStructureWithBitsetBody dec data desc bitset c
      = lift (dec.decodeStructureWithBitsetBody data desc bitset) c :=
  outermost_agrees fit idle nothing (bitsetBody_agrees fit small numbered)

theorem decodeStructureWithBitset_agrees {c : Cells} (fit : dec.limits.Fit) (idle : dec.Idle c)
    (nothing : c.resolved = .nothing) (small : data.length < 2 ^ 63) {desc : StructureDesc} (numbered : Numbered desc) :
    Guarded.decodeStructureWithBitset dec data desc c = lift (dec.decodeStructureWithBitset data desc) c := by
  unfold Guarded.decodeStructureWithBitset PvdDecoder.decodeStructureWithBitset
  refine ite_agrees (fun _ => rfl) fun _ => ?_
  refine bindExcept_lift (decodeSize_agrees data c) fun size sized => ?_
  have extent := decodeSizePrefixed_extent sized
  have word := decodeSizePrefixed_lt sized
  dsimp only
  by_cases empty : size.1 = 0
  · rw [if_pos empty, if_pos (Or.inl empty)]
    rfl
  rw [if_neg empty, add_bind (by omega)]
  by_cases short : data.length < size.2 + size.1
  · rw [if_pos short, if_pos (Or.inr short)]
    rfl
  rw [if_neg short, if_neg (by tauto), slice_bind (by omega) (by omega), sliceFrom_bind (by omega), Nat.add_sub_cancel_left]
  refine bind_lift (bitsetScope_agrees fit idle nothing (drop_small small _) numbered _) fun r t ran => ?_
  have inside := returns_scope (bitsetBody_within desc) _ _ _ ran
  rw [List.length_drop] at inside
  rw [add_bind (by omega)]
  rfl

theorem readBitset_agrees {offset : Nat} (small : data.length < 2 ^ 63) (c : Cells) :
    Guarded.readBitset dec data offset c = lift (ofExcept (dec.readBitset data offset)) c := by
  unfold Guarded.readBitset PvdDecoder.readBitset
  by_cases past : data.length < offset
  · rw [if_pos past, if_pos past]
    rfl
  rw [if_neg past, if_neg past, sliceFrom_bind (by omega)]
  have sizes := @decodeSize_agrees dec (data.drop offset) c
  unfold PvdDecoder.decodeSize at sizes
  cases sized : decodeSizePrefixed (data.drop offset) dec.isBe with
  | error e =>
    rw [sized] at sizes
    rw [bind_error sizes]
    rfl
  | ok size =>
    have extent := decodeSizePrefixed_extent sized
    have word := decodeSizePrefixed_lt sized
    rw [List.length_drop] at extent
    rw [sized] at sizes
    rw [bind_ok sizes]
    dsimp only
    rw [add_bind (by omega), add_bind (by omega)]
    change _ = lift (ofExcept (if data.length < offset + size.2 + size.1 then _ else _)) c
    by_cases short : data.length < offset + size.2 + size.1
    · rw [if_pos short, if_pos short]
      rfl
    · rw [if_neg short, if_neg short, slice_bind (by omega) (by omega), Nat.add_sub_cancel_left]
      rfl

theorem decodeMonitorUpdate_agrees {c : Cells} (fit : dec.limits.Fit) (idle : dec.Idle c)
    (nothing : c.resolved = .nothing) (small : data.length < 2 ^ 63) {desc : StructureDesc} (numbered : Numbered desc) :
    Guarded.decodeMonitorUpdate dec data desc c = lift (dec.decodeMonitorUpdate data desc) c := by
  refine bindExcept_lift (readBitset_agrees small c) fun changed read => ?_
  have start := readBitset_within read
  dsimp only
  rw [sliceFrom_bind start.2]
  refine bind_lift (bitsetScope_agrees fit idle nothing (drop_small small _) numbered _) fun r t ran => ?_
  have inside := returns_scope (bitsetBody_within desc) _ _ _ ran
  rw [List.length_drop] at inside
  rw [add_bind (by omega)]
  exact bind_lift (readBitset_agrees small t) fun _ _ _ => rfl

end PvdDecoder

def Answer.consumed : Answer → Nat
  | .size _ n | .string _ n | .fieldDesc _ n | .introspectionWithLen _ n | .value _ n => n
  | .update u => u.consumed
  | .introspection _ => 0

/-- What a machine can hold: slices of at most `isize::MAX` bytes, descriptors whose bits are words. -/
def Call.Representable : Call → Prop
  | .decodeStructureWithBitset data desc | .decodeMonitorUpdate data desc =>
    data.length < 2 ^ 63 ∧ PvdDecoder.Numbered desc
  | .parseFieldDesc data | .parseIntrospection data | .parseIntrospectionWithLen data | .decodeValue data _
  | .decodeStructure data _ => data.length < 2 ^ 63

def Call.guarded (dec : PvdDecoder) : Call → GuardedM Answer
  | .parseFieldDesc data => do
    let (field, consumed) ← PvdDecoder.Guarded.parseFieldDesc dec data
    pure (.fieldDesc field consumed)
  | .parseIntrospection data => do
    let desc ← PvdDecoder.Guarded.parseIntrospection dec data
    pure (.introspection desc)
  | .parseIntrospectionWithLen data => do
    let (desc, consumed) ← PvdDecoder.Guarded.parseIntrospectionWithLen dec data
    pure (.introspectionWithLen desc consumed)
  | .decodeValue data ft => do
    let (v, consumed) ← PvdDecoder.Guarded.decodeValue dec data ft
    pure (.value v consumed)
  | .decodeStructure data desc => do
    let (v, consumed) ← PvdDecoder.Guarded.decodeStructure dec data desc
    pure (.value v consumed)
  | .decodeStructureWithBitset data desc => do
    let (v, consumed) ← PvdDecoder.Guarded.decodeStructureWithBitset dec data desc
    pure (.value v consumed)
  | .decodeMonitorUpdate data desc => do
    let u ← PvdDecoder.Guarded.decodeMonitorUpdate dec data desc
    pure (.update u)

namespace PvdDecoder

variable {dec : PvdDecoder} {c : Cells}

section

variable (fit : dec.limits.Fit) (idle : dec.Idle c) (nothing : c.resolved = .nothing)

include fit idle nothing

theorem introspection_agrees {data : List UInt8} (small : data.length < 2 ^ 63) :
    Guarded.parseIntrospectionWithLen dec data c = lift (dec.parseIntrospectionWithLen data) c := by
  unfold Guarded.parseIntrospectionWithLen parseIntrospectionWithLen
  cases dec.limits.maxDepth with
  | zero => exact outermost_agrees fit idle nothing (enter_agrees fit (by omega) (Agrees.fail _ : dec.Agrees 0 _ _))
  | succ fuel =>
    exact outermost_agrees fit idle nothing (enter_agrees fit (by omega) (parseIntrospectionWith_agrees fit
      (parseIntrospectionFuel_agrees fit fuel) (parseIntrospectionFuel_bounded fuel) (parseIntrospectionFuel_within fuel) small))

theorem decodeValue_agrees {data : List UInt8} (small : data.length < 2 ^ 63) (ft : FieldType) :
    Guarded.decodeValue dec data ft c = lift (dec.decodeValue data ft) c := by
  unfold Guarded.decodeValue decodeValue
  cases dec.limits.maxDepth with
  | zero => exact outermost_agrees fit idle nothing (enter_agrees fit (by omega) (Agrees.fail _ : dec.Agrees 0 _ _))
  | succ fuel =>
    exact outermost_agrees fit idle nothing
      (enter_agrees fit (by omega) (decodeValueWith_agrees fit (decodeValueFuel_alike fit fuel) small ft))

theorem guarded_agrees (call : Call)
    (representable : call.Representable) : call.guarded dec c = lift (call.answer dec) c := by
  cases call with
  | parseFieldDesc data =>
    refine bind_lift (outermost_agrees fit idle nothing ?_) fun _ _ _ => rfl
    exact fieldDescBody_agrees (parseTypeDesc_alike fit _) representable
  | parseIntrospection data =>
    exact bind_lift (bind_lift (introspection_agrees fit idle nothing representable) fun _ _ _ => rfl) fun _ _ _ => rfl
  | parseIntrospectionWithLen data =>
    exact bind_lift (introspection_agrees fit idle nothing representable) fun _ _ _ => rfl
  | decodeValue data ft => exact bind_lift (decodeValue_agrees fit idle nothing representable ft) fun _ _ _ => rfl
  | decodeStructure data desc =>
    have whole : Guarded.decodeStructure dec data desc c = lift (dec.decodeStructure data desc) c :=
      outermost_agrees fit idle nothing fun c placed =>
        structureBody_agrees (decodeValueFuel_alike fit _) representable desc c (placed.loosen (by omega))
    exact bind_lift whole fun _ _ _ => rfl
  | decodeStructureWithBitset data desc =>
    exact bind_lift (decodeStructureWithBitset_agrees fit idle nothing representable.1 representable.2) fun _ _ _ => rfl
  | decodeMonitorUpdate data desc =>
    exact bind_lift (decodeMonitorUpdate_agrees fit idle nothing representable.1 representable.2) fun _ _ _ => rfl

end

theorem answer_within (call : Call) : Returns (call.answer dec) fun answer => answer.consumed ≤ call.input.length := by
  cases call with
  | parseFieldDesc data => exact (parseFieldDesc_within data).bind fun _ extent => .pure extent
  | parseIntrospection data => exact .skip fun _ => .pure (Nat.zero_le _)
  | parseIntrospectionWithLen data => exact (parseIntrospectionFuel_within _ data).bind fun _ extent => .pure extent
  | decodeValue data ft => exact (decodeValue_within data ft).bind fun _ extent => .pure extent
  | decodeStructure data desc => exact (decodeStructure_within data desc).bind fun _ extent => .pure extent
  | decodeStructureWithBitset data desc =>
    exact (decodeStructureWithBitset_within data desc).bind fun _ extent => .pure extent
  | decodeMonitorUpdate data desc => exact (decodeMonitorUpdate_within data desc).bind fun _ extent => .pure extent

/-- Whatever calls came before, on a machine of 64-bit words no call panics: it does
as it does on lists and numbers, and reports no more bytes than it was given. The
parse of a type descriptor, which every call goes through, does so from any state of
a decode in progress. -/
theorem decoders_stay_inside (fit : dec.limits.Fit) (calls : List PublicCall) :
    (∀ call : Call, call.Representable →
      (call.guarded dec { dec.after calls with resolved := .nothing }).1
          = ((PublicCall.decode call).perform dec (dec.after calls)).1.mapError .error ∧
        ∀ answer, ((PublicCall.decode call).perform dec (dec.after calls)).1 = .ok answer →
          answer.consumed ≤ call.input.length) ∧
    ∀ (data : List UInt8) (c : Cells), data.length < 2 ^ 63 → dec.Placed 2 c →
      (Guarded.parseTypeDesc dec dec.limits.maxDepth data c).1
          = (dec.parseTypeDesc dec.limits.maxDepth data c).1.mapError .error ∧
        ∀ r, (dec.parseTypeDesc dec.limits.maxDepth data c).1 = .ok r → r.2 ≤ data.length := by
  refine ⟨fun call representable => ⟨?_, fun answer answered => ?_⟩, fun data c small placed => ⟨?_, fun r parsed => ?_⟩⟩
  · have idle := (@after_reaches dec calls).idle.forget
    exact congrArg Prod.fst (guarded_agrees fit idle rfl call representable)
  · exact answer_within call _ _ _ (Prod.ext answered rfl)
  · exact congrArg Prod.fst ((parseTypeDesc_alike fit dec.limits.maxDepth).agrees data small c placed)
  · exact (parseTypeDesc_within dec.limits.maxDepth data _ _ _ (Prod.ext parsed rfl)).2

/-- A size that announces more than there is, after a call that was cut short. -/
theorem decoders_stay_inside_cut :
    let dec := new false
    let calls := [PublicCall.decode (.parseFieldDesc [0, 0xFD])]
    let call := Call.decodeValue [0xFE, 0xFF, 0xFF, 0xFF, 0xFF, 1] .string
    ((PublicCall.decode call).perform dec (dec.after calls)).1 = .error (.truncated (5 + (2 ^ 32 - 1)) 6) ∧
      (call.guarded dec { dec.after calls with resolved := .nothing }).1 = .error (.error (.truncated (5 + (2 ^ 32 - 1)) 6)) := by
  intro dec calls call
  have fit : dec.limits.Fit := ⟨by decide, by decide⟩
  have failed : ((PublicCall.decode call).perform dec (dec.after calls)).1 = .error (.truncated (5 + (2 ^ 32 - 1)) 6) := rfl
  refine ⟨failed, ?_⟩
  rw [((decoders_stay_inside fit calls).1 call (by simp [call, Call.Representable])).1, failed]
  rfl

end PvdDecoder

end Spvirit
