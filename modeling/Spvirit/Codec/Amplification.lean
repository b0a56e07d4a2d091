import Spvirit.Codec.PublicCalls

/-! How many nodes a decode may build for the bytes it is given. -/

namespace Spvirit

open Fallible

theorem typeNodes_pos (ft : FieldType) : 1 ≤ typeNodes ft := by
  cases ft <;> simp [typeNodes]

theorem typeNodes_le_fieldsNodes {fields : List FieldDesc} {f : FieldDesc} (member : f ∈ fields) :
    typeNodes f.fieldType ≤ fieldsNodes fields := by
  induction fields with
  | nil => cases member
  | cons g fields ih =>
    rw [fieldsNodes]
    rcases List.mem_cons.mp member with rfl | later
    · omega
    · have := ih later
      omega

theorem selectField_mem {fields : List FieldDesc} {selector : Nat} {f : FieldDesc}
    (selected : PvdDecoder.selectField fields selector = .ok f) : f ∈ fields := by
  unfold PvdDecoder.selectField at selected
  split at selected
  case h_1 found =>
    cases selected
    exact List.mem_of_getElem? found
  · cases selected

namespace PvdDecoder

variable {dec : PvdDecoder} {K : Nat} {c : Cells} {data : List UInt8}

theorem Keeps.limited {quiet : Prop} {t : Cells} (keeps : dec.Keeps quiet c t) (good : dec.InBudget c)
    (limited : c.nodeLimit ≤ K) : t.nodeLimit ≤ K :=
  (keeps.nodeLimit good.inScope).trans_le limited

/-- The nodes of a type that a decoder with these limits can be made to meet. -/
def amplification (limits : DecodeLimits) : Nat := max maxDecodeNodes limits.maxStructFields

theorem nodeCeiling_le_amplification (limits : DecodeLimits) (inputLen : Nat) :
    nodeCeiling limits.maxStructFields inputLen ≤ amplification limits := by
  unfold nodeCeiling amplification
  omega

/-- The type trees a peer can make a decoder with these limits hand out, and their fields. -/
inductive FromWire (limits : DecodeLimits) : FieldType → Prop
  | returned {dec : PvdDecoder} {calls : List PublicCall} {call : Call} {answer : Answer} {ft : FieldType} :
    dec.limits = limits → ((PublicCall.decode call).perform dec (dec.after calls)).1 = .ok answer →
      ft ∈ answer.trees → FromWire limits ft
  | field {desc : StructureDesc} {f : FieldDesc} :
    FromWire limits (.structure desc) → f ∈ desc.fields → FromWire limits f.fieldType

theorem FromWire.small {limits : DecodeLimits} {ft : FieldType} (wire : FromWire limits ft) :
    typeNodes ft ≤ amplification limits := by
  induction wire with
  | @returned dec calls call answer ft same returned member =>
    subst same
    have idle := (@after_reaches dec calls).idle
    obtain ⟨settled, total⟩ := (answer_topLevel call idle.forget rfl).2 answer returned
    have most := nodeCeiling_le_amplification dec.limits call.input.length
    have part : typeNodes ft ≤ (answer.trees.map typeNodes).sum :=
      List.single_le_sum (fun n _ => Nat.zero_le n) _ (List.mem_map_of_mem member)
    exact part.trans (total.2.trans (settled.total.trans most))
  | field outer member ih =>
    rw [typeNodes] at ih
    have part := typeNodes_le_fieldsNodes member
    omega

/-- What is counted behind a step, from the cells it leaves, if it succeeds. -/
def behind {α : Type} (m : DecodeM α) (count : α → Cells → Nat) (c : Cells) : Nat :=
  match m c with
  | (.ok a, t) => count a t
  | (.error _, _) => 0

section

variable (dec)

/-! The nodes a call builds. Every value it begins counts, whether it is returned, is
dropped with a structure's failed field, or fails itself. -/

def itemsBuilt (item : Nat → DecodeM (DecodedValue × Nat)) (built : Nat → Cells → Nat) : Nat → Nat → Cells → Nat
  | 0, _, _ => 0
  | count + 1, offset, c => built offset c + behind (item offset) (fun r => itemsBuilt item built count r.2) c

def arrayBuilt (data : List UInt8) (minElem : Nat) (kind : String) (limit : Nat)
    (item : Nat → DecodeM (DecodedValue × Nat)) (built : Nat → Cells → Nat) : Cells → Nat :=
  behind (dec.decodeSize data) fun size =>
    behind (ofExcept (checkArrayCount size.1 minElem (data.length - size.2) kind limit)) fun _ c =>
      1 + itemsBuilt item built size.1 size.2 c

section

variable (decodeValue : List UInt8 → FieldType → DecodeM (DecodedValue × Nat))
  (built : List UInt8 → FieldType → Cells → Nat)

def fieldsBuilt (data : List UInt8) : List FieldDesc → Nat → Cells → Nat
  | [], _, _ => 0
  | field :: rest, offset, c =>
    if data.length ≤ offset then 0
    else
      built (data.drop offset) field.fieldType c +
        behind (attempt isHostile (decodeValue (data.drop offset) field.fieldType)) (fun o t =>
          match o with
          | none => 0
          | some r => fieldsBuilt data rest (offset + r.2) t) c

def structureBuilt (data : List UInt8) (desc : StructureDesc) : Cells → Nat :=
  behind (dec.nodeBudgetScope data.length get) fun inner _ => 1 + fieldsBuilt decodeValue built data desc.fields 0 inner

def structureItemBuilt (data : List UInt8) (desc : StructureDesc) (offset : Nat) (c : Cells) : Nat :=
  match data[offset]? with
  | none => 0
  | some 0 => 1
  | some _ => dec.structureBuilt decodeValue built (data.drop (offset + 1)) desc c

def unionItemBuilt (data : List UInt8) (fields : List FieldDesc) (offset : Nat) : Cells → Nat :=
  behind (dec.decodeSize (data.drop offset)) fun selector =>
    behind (ofExcept (selectField fields selector.1)) fun field c =>
      1 + built (data.drop (offset + selector.2)) field.fieldType c

def variantBuilt (data : List UInt8) (c : Cells) : Nat :=
  match data with
  | [] => 0
  | 0xFF :: _ => 1
  | _ =>
    behind (dec.parseTypeDesc dec.limits.maxDepth data) (fun tag =>
      behind (noteVariant tag.1) fun _ => built (data.drop tag.2) tag.1) c

def valueBuiltWith (data : List UInt8) : FieldType → Cells → Nat
  | .scalar _ | .string | .boundedString _ => fun _ => 1
  | .scalarArray tc =>
    dec.arrayBuilt data (tc.size.getD 1) "scalar array" dec.limits.maxScalarArray (fun offset => do
      let (v, consumed) ← ofExcept (dec.decodeScalar (data.drop offset) tc)
      pure (v, offset + consumed)) fun _ _ => 1
  | .stringArray =>
    dec.arrayBuilt data 1 "string array" dec.limits.maxStringArray (fun offset => do
      let (s, consumed) ← dec.decodeString (data.drop offset)
      pure (.string s, offset + consumed)) fun _ _ => 1
  | .structure desc => dec.structureBuilt decodeValue built data desc
  | .structureArray desc =>
    dec.arrayBuilt data 1 "structure array" dec.limits.maxStructArray (dec.structureItem decodeValue data desc)
      (dec.structureItemBuilt decodeValue built data desc)
  | .union fields => dec.unionItemBuilt built data fields 0
  | .unionArray fields =>
    dec.arrayBuilt data 1 "union array" dec.limits.maxUnionArray (dec.unionItem decodeValue data fields)
      (dec.unionItemBuilt built data fields)
  | .variant => dec.variantBuilt built data
  | .variantArray =>
    dec.arrayBuilt data 1 "variant array" dec.limits.maxVariantArray (fun offset => do
      let (v, consumed) ← decodeValue (data.drop offset) .variant
      pure (v, offset + consumed)) fun offset => built (data.drop offset) .variant

end

def valueBuiltFuel : Nat → List UInt8 → FieldType → Cells → Nat
  | 0, _, _ => fun _ => 0
  | fuel + 1, data, ft =>
    behind (dec.nodeBudgetScope data.length (dec.enter get)) fun inner _ =>
      dec.valueBuiltWith (dec.decodeValueFuel fuel) (valueBuiltFuel fuel) data ft inner

/-- The nodes built by a call of `decode_value`. -/
def valueBuilt : List UInt8 → FieldType → Cells → Nat := dec.valueBuiltFuel dec.limits.maxDepth

def decodeStructureBuilt : List UInt8 → StructureDesc → Cells → Nat := dec.structureBuilt dec.decodeValue dec.valueBuilt

end

/-- Above every limit on the elements of an array. -/
def widest (limits : DecodeLimits) : Nat :=
  1 + limits.maxScalarArray + limits.maxStringArray + limits.maxStructArray + limits.maxUnionArray + limits.maxVariantArray

/-- A value whose parts have at most `part` nodes each: an array of structures at worst. -/
def wrapped (limits : DecodeLimits) (part : Nat) : Nat := 1 + widest limits * (1 + amplification limits * part)

/-- The nodes that can be built for a value of so many levels. -/
def nodesAtDepth (limits : DecodeLimits) (depth : Nat) : Nat := (wrapped limits)^[depth] 0

theorem wrapped_ge {limits : DecodeLimits} {part : Nat} (positive : 1 ≤ amplification limits) :
    1 + amplification limits * part ≤ wrapped limits part ∧ 1 + part ≤ wrapped limits part := by
  have many : 1 * (1 + amplification limits * part) ≤ widest limits * (1 + amplification limits * part) :=
    Nat.mul_le_mul_right _ (by unfold widest; omega)
  have alone : 1 * part ≤ amplification limits * part := Nat.mul_le_mul_right part positive
  unfold wrapped
  omega

theorem behind_le {α : Type} {m : DecodeM α} {quiet : Prop} {post : α → Nat → Prop} {count : α → Cells → Nat} {most : Nat}
    (runs : dec.Bounded quiet m c post)
    (next : ∀ a t, dec.Keeps quiet c t → dec.InBudget t → post a t.resolved.total → count a t ≤ most) :
    behind m count c ≤ most := by
  rcases result : m c with ⟨r, t⟩
  obtain ⟨keeps, meets⟩ := runs.of_eq result
  unfold behind
  rw [result]
  cases r with
  | ok a => exact next a t keeps meets.1 meets.2
  | error e => exact Nat.zero_le _

theorem behind_ofExcept_le {α : Type} {r : Except DecodeError α} {count : α → Cells → Nat} {most : Nat}
    (next : ∀ a, r = .ok a → count a c ≤ most) : behind (ofExcept r) count c ≤ most := by
  cases r with
  | ok a => exact next a rfl
  | error e => exact Nat.zero_le _

theorem get_bounded (good : dec.InBudget c) (limited : c.nodeLimit ≤ K) :
    dec.Bounded False Fallible.get c fun inner _ => dec.InBudget inner ∧ inner.nodeLimit ≤ K :=
  runs_of_eq rfl (.refl c) ⟨good, good, limited⟩

theorem itemsBuilt_le {item : Nat → DecodeM (DecodedValue × Nat)} {built : Nat → Cells → Nat} {part : Nat}
    (items : ∀ offset, dec.Frugal _ (item offset))
    (each : ∀ offset c, dec.InBudget c → c.nodeLimit ≤ K → built offset c ≤ part)
    (count offset : Nat) (good : dec.InBudget c) (limited : c.nodeLimit ≤ K) :
    itemsBuilt item built count offset c ≤ count * part := by
  induction count generalizing offset c with
  | zero => exact Nat.zero_le _
  | succ count ih =>
    have here := each offset c good limited
    have later : behind (item offset) (fun r => itemsBuilt item built count r.2) c ≤ count * part :=
      behind_le (items offset c good) fun r t keeps fine _ => ih r.2 fine (keeps.limited good limited)
    rw [itemsBuilt, Nat.succ_mul]
    omega

theorem arrayBuilt_le {minElem limit part most : Nat} {kind : String} {item : Nat → DecodeM (DecodedValue × Nat)}
    {built : Nat → Cells → Nat} (items : ∀ offset, dec.Frugal _ (item offset))
    (each : ∀ offset c, dec.InBudget c → c.nodeLimit ≤ K → built offset c ≤ part)
    (wide : limit ≤ widest dec.limits) (room : 1 + widest dec.limits * part ≤ most)
    (good : dec.InBudget c) (limited : c.nodeLimit ≤ K) : dec.arrayBuilt data minElem kind limit item built c ≤ most := by
  refine behind_ofExcept_le fun size _ => behind_ofExcept_le fun _ checked => ?_
  have few : size.1 ≤ limit := by
    unfold checkArrayCount at checked
    split_ifs at checked
    omega
  have counted := itemsBuilt_le items each size.1 size.2 good limited
  have product : size.1 * part ≤ widest dec.limits * part := Nat.mul_le_mul_right part (few.trans wide)
  omega

section

variable {decodeValue : List UInt8 → FieldType → DecodeM (DecodedValue × Nat)} {built : List UInt8 → FieldType → Cells → Nat}
  {part : Nat} (decodes : dec.DecodesValues decodeValue)
  (parts : ∀ data ft c, dec.InBudget c → c.nodeLimit ≤ K → typeNodes ft ≤ K → built data ft c ≤ part)
  (good : dec.InBudget c) (limited : c.nodeLimit ≤ K)

include parts good limited

include decodes in
theorem fieldsBuilt_le (fs : List FieldDesc) (offset : Nat) (small : fieldsNodes fs ≤ K) :
    fieldsBuilt decodeValue built data fs offset c ≤ fieldsNodes fs * part := by
  induction fs generalizing offset c with
  | nil => exact Nat.zero_le _
  | cons f fs ih =>
    rw [fieldsNodes] at small ⊢
    rw [fieldsBuilt]
    split_ifs
    · exact Nat.zero_le _
    · have here := parts (data.drop offset) f.fieldType c good limited (by omega)
      have weight : 1 * part ≤ typeNodes f.fieldType * part := Nat.mul_le_mul_right part (typeNodes_pos _)
      rw [Nat.add_mul]
      refine Nat.add_le_add (by omega) (behind_le (decodes _ _ c good).attempt fun o t keeps fine _ => ?_)
      cases o with
      | none => exact Nat.zero_le _
      | some r => exact ih fine (keeps.limited good limited) _ (by omega)

include decodes in
theorem structureBuilt_le (data : List UInt8) (desc : StructureDesc) (small : typeNodes (.structure desc) ≤ K) :
    dec.structureBuilt decodeValue built data desc c ≤ 1 + K * part := by
  rw [typeNodes] at small
  refine behind_le (.nested good (get_bounded (good.atScope (Nat.succ_pos _)) limited)) fun inner _ _ _ ⟨fine, within⟩ => ?_
  have counted := @fieldsBuilt_le dec K inner data _ _ part decodes parts fine within desc.fields 0 (by omega)
  have all : fieldsNodes desc.fields * part ≤ K * part := Nat.mul_le_mul_right part (by omega)
  omega

theorem unionItemBuilt_le (fields : List FieldDesc) (offset : Nat) (small : 1 + fieldsNodes fields ≤ K) :
    dec.unionItemBuilt built data fields offset c ≤ 1 + part := by
  refine behind_ofExcept_le fun selector _ => behind_ofExcept_le fun field selected => ?_
  have inside := typeNodes_le_fieldsNodes (selectField_mem selected)
  exact Nat.add_le_add_left (parts _ _ c good limited (by omega)) 1

theorem variantBuilt_le (data : List UInt8) : dec.variantBuilt built data c ≤ 1 + part := by
  unfold variantBuilt
  split
  · exact Nat.zero_le _
  · exact Nat.le_add_right 1 part
  · refine behind_le (parseTypeDesc_bounded _ _ _ good) fun tag t keeps fine resolved => ?_
    have height := resolved.height
    have nodes := resolved.nodes
    have within := fine.within
    have counted := fine.counted
    have inLimit := keeps.limited good limited
    have noted := fine.noted (by omega) (resolved.covered good keeps)
    exact (parts _ tag.1 _ noted inLimit (by omega)).trans (Nat.le_add_left _ _)

end

theorem valueBuiltWith_le {decodeValue : List UInt8 → FieldType → DecodeM (DecodedValue × Nat)}
    {built : List UInt8 → FieldType → Cells → Nat} {part : Nat}
    (decodes : dec.DecodesValues decodeValue)
    (parts : ∀ data ft c, dec.InBudget c → c.nodeLimit ≤ amplification dec.limits → typeNodes ft ≤ amplification dec.limits →
      built data ft c ≤ part)
    (good : dec.InBudget c) (limited : c.nodeLimit ≤ amplification dec.limits) (data : List UInt8) (ft : FieldType)
    (small : typeNodes ft ≤ amplification dec.limits) :
    dec.valueBuiltWith decodeValue built data ft c ≤ wrapped dec.limits part := by
  have positive : 1 ≤ amplification dec.limits := le_trans (typeNodes_pos ft) small
  obtain ⟨structured, single⟩ := @wrapped_ge dec.limits part positive
  -- the elements of an array have at most as many nodes as a structure
  have array : ∀ {most : Nat}, most ≤ 1 + amplification dec.limits * part →
      1 + widest dec.limits * most ≤ wrapped dec.limits part :=
    fun few => Nat.add_le_add_left (Nat.mul_le_mul_left _ few) 1
  have alone : 1 * part ≤ amplification dec.limits * part := Nat.mul_le_mul_right part positive
  cases ft with
  | scalar _ | string | boundedString _ => exact (Nat.le_add_right 1 part).trans single
  | scalarArray _ | stringArray =>
    exact arrayBuilt_le (fun _ => frugal_closed.bindExcept fun _ => frugal_closed.pure _) (fun _ _ _ _ => le_rfl)
      (by unfold widest; omega) (array (Nat.le_add_right 1 _)) good limited
  | «structure» desc => exact (structureBuilt_le decodes parts good limited data desc small).trans structured
  | structureArray desc =>
    refine arrayBuilt_le (structureItem_closed frugal_closed decodes desc)
      (fun offset c good limited => ?_) (by unfold widest; omega) (array le_rfl) good limited
    unfold structureItemBuilt
    split
    · exact Nat.zero_le _
    · exact Nat.le_add_right 1 _
    · exact structureBuilt_le decodes parts good limited _ desc small
  | union fields => exact (unionItemBuilt_le parts good limited fields 0 small).trans single
  | unionArray fields =>
    exact arrayBuilt_le (unionItem_closed frugal_closed decodes fields)
      (fun offset c good limited => unionItemBuilt_le parts good limited fields offset small) (by unfold widest; omega)
      (array (by omega)) good limited
  | variant => exact (variantBuilt_le parts good limited data).trans single
  | variantArray =>
    exact arrayBuilt_le (fun _ => frugal_closed.bind (decodes _ .variant) fun _ => frugal_closed.pure _)
      (fun offset c good limited => parts _ .variant c good limited positive) (by unfold widest; omega)
      (array (by omega)) good limited

theorem valueBuiltFuel_le (fuel : Nat) (data : List UInt8) (ft : FieldType) (c : Cells) (good : dec.InBudget c)
    (limited : c.nodeLimit ≤ amplification dec.limits) (small : typeNodes ft ≤ amplification dec.limits) :
    dec.valueBuiltFuel fuel data ft c ≤ nodesAtDepth dec.limits fuel := by
  induction fuel generalizing data ft c with
  | zero => exact Nat.zero_le _
  | succ fuel ih =>
    unfold nodesAtDepth
    rw [Function.iterate_succ_apply']
    refine behind_le (.nested good (.enter fun _ => get_bounded ((good.atScope (Nat.succ_pos _)).atDepth _) limited))
      fun inner _ _ _ ⟨fine, within⟩ => ?_
    exact valueBuiltWith_le (decodeValueFuel_bounded fuel) ih fine within data ft small

/-- The cells a call from outside starts from. -/
def between (dec : PvdDecoder) (calls : List PublicCall) : Cells := { dec.after calls with resolved := .nothing }

/-- At the top the budget is opened first. -/
theorem behind_opened_le {m : DecodeM Cells} {count : Cells → Nat} {most inputLen : Nat} (idle : dec.Idle c)
    (nothing : c.resolved = .nothing)
    (inner : dec.InBudget (dec.opened inputLen c) → dec.Bounded False m (dec.opened inputLen c) fun inner _ =>
      dec.InBudget inner ∧ inner.nodeLimit ≤ amplification dec.limits)
    (next : ∀ inner, dec.InBudget inner → inner.nodeLimit ≤ amplification dec.limits → count inner ≤ most) :
    behind (dec.nodeBudgetScope inputLen m) (fun inner _ => count inner) c ≤ most := by
  have top := TopLevel.outermost idle nothing inner
  rcases result : dec.nodeBudgetScope inputLen m c with ⟨r, t⟩
  unfold behind
  rw [result]
  cases r with
  | ok a =>
    obtain ⟨_, fine, within⟩ := top.2 a (by rw [result])
    exact next a fine within
  | error e => exact Nat.zero_le _

theorem valueBuilt_le {ft : FieldType} (data : List UInt8) (idle : dec.Idle c) (nothing : c.resolved = .nothing)
    (small : typeNodes ft ≤ amplification dec.limits) :
    dec.valueBuilt data ft c ≤ nodesAtDepth dec.limits dec.limits.maxDepth := by
  have limited := nodeCeiling_le_amplification dec.limits data.length
  unfold valueBuilt
  generalize dec.limits.maxDepth = fuel
  cases fuel with
  | zero => exact Nat.zero_le _
  | succ fuel =>
    refine behind_opened_le idle nothing (fun good => .enter fun _ => get_bounded (good.atDepth _) limited)
      fun inner fine within => ?_
    unfold nodesAtDepth
    rw [Function.iterate_succ_apply']
    exact valueBuiltWith_le (decodeValueFuel_bounded fuel) (valueBuiltFuel_le fuel) fine within data ft small

theorem decodeStructureBuilt_le {desc : StructureDesc} (data : List UInt8) (idle : dec.Idle c)
    (nothing : c.resolved = .nothing) (small : typeNodes (.structure desc) ≤ amplification dec.limits) :
    dec.decodeStructureBuilt data desc c ≤ nodesAtDepth dec.limits (dec.limits.maxDepth + 1) := by
  have limited := nodeCeiling_le_amplification dec.limits data.length
  unfold decodeStructureBuilt structureBuilt nodesAtDepth
  refine behind_opened_le idle nothing (fun good => get_bounded good limited) fun inner fine within => ?_
  rw [Function.iterate_succ_apply']
  have positive : 1 ≤ amplification dec.limits := le_trans (typeNodes_pos _) small
  refine le_trans ?_ (wrapped_ge positive).1
  rw [typeNodes] at small
  have counted := @fieldsBuilt_le dec _ inner data _ _ _ (decodeValueFuel_bounded dec.limits.maxDepth)
    (valueBuiltFuel_le dec.limits.maxDepth) fine within desc.fields 0 (by omega)
  exact Nat.add_le_add_left (counted.trans (Nat.mul_le_mul_right _ (by omega))) 1

end PvdDecoder

end Spvirit
