import Spvirit.Codec.GuardedDecode
import Spvirit.Codec.GuardedParse

/-! The decoding of values never panics. -/

namespace Spvirit.PvdDecoder

open ByteOrder Fallible Machine

variable {dec : PvdDecoder} {slack : Nat} {data : List UInt8}

theorem drop_small (small : data.length < 2 ^ 63) (offset : Nat) : (data.drop offset).length < 2 ^ 63 := by
  rw [List.length_drop]
  omega

theorem decodeScalar_agrees (data : List UInt8) (tc : TypeCode) (c : Cells) :
    Guarded.decodeScalar dec data tc c = lift (ofExcept (dec.decodeScalar data tc)) c := by
  unfold Guarded.decodeScalar PvdDecoder.decodeScalar
  cases tc.size with
  | none => rfl
  | some size =>
    dsimp only
    by_cases short : data.length < size
    · rw [if_pos short, if_pos short]
      rfl
    · rw [if_neg short, if_neg short, slice_bind (Nat.zero_le _) (by omega)]
      simp only [List.drop_zero, Nat.sub_zero]
      cases scalarOfNat tc (ofBytes dec.isBe (data.take size)) <;> rfl

section

variable {item : Nat → DecodeM (DecodedValue × Nat)} {guarded : Nat → GuardedM (DecodedValue × Nat)}

/-- What an element read must satisfy at every offset inside the data. -/
structure ItemsAlike (dec : PvdDecoder) (data : List UInt8) (guarded : Nat → GuardedM (DecodedValue × Nat))
    (item : Nat → DecodeM (DecodedValue × Nat)) : Prop where
  agrees : ∀ offset ≤ data.length, dec.Agrees 1 (guarded offset) (item offset)
  bounded : ∀ offset c, dec.InBudget c → dec.Bounded False (item offset) c fun _ _ => True
  within : ∀ offset ≤ data.length, Within data (item offset)

theorem decodeItems_agrees (alike : dec.ItemsAlike data guarded item) (count offset : Nat) (inside : offset ≤ data.length) :
    dec.Agrees 1 (Guarded.decodeItems guarded count offset) (decodeItems item count offset) := by
  induction count generalizing offset with
  | zero => exact .pure _
  | succ count ih =>
    intro c placed
    refine Agrees.bind placed (alike.agrees offset inside c placed) (alike.bounded offset c placed.good)
      fun r t read placed' _ => ?_
    have next := alike.within offset inside _ _ _ read
    exact bind_lift (ih r.2 next t placed') fun _ _ _ => rfl

theorem decodeArray_agrees {minElem limit : Nat} {kind : String} (alike : dec.ItemsAlike data guarded item) :
    dec.Agrees 1 (Guarded.decodeArray dec data minElem kind limit guarded)
      (dec.decodeArray data minElem kind limit item) := by
  intro c placed
  refine bindExcept_lift (decodeSize_agrees data c) fun size sized => ?_
  have extent := decodeSizePrefixed_extent sized
  dsimp only
  rw [sub_bind extent.2]
  refine bindExcept_lift rfl fun _ _ => ?_
  exact bind_lift (decodeItems_agrees alike size.1 size.2 extent.2 c placed) fun _ _ _ => rfl

theorem itemAt_alike {α : Type} {read : List UInt8 → DecodeM (α × Nat)} {read' : List UInt8 → GuardedM (α × Nat)}
    {value : α → DecodedValue} (small : data.length < 2 ^ 63)
    (agrees : ∀ rest, rest.length < 2 ^ 63 → dec.Agrees 1 (read' rest) (read rest))
    (bounded : ∀ rest c, dec.InBudget c → dec.Bounded False (read rest) c fun _ _ => True)
    (within : ∀ rest, Within rest (read rest)) :
    dec.ItemsAlike data (Guarded.itemAt data read' value) fun offset =>
      read (data.drop offset) >>= fun r => pure (value r.1, offset + r.2) := by
  refine ⟨fun offset inside c placed => ?_, fun offset c good => ?_, fun offset inside => ?_⟩
  · rw [Guarded.itemAt, sliceFrom_bind inside]
    refine bind_lift (agrees _ (drop_small small offset) c placed) fun r t ran => ?_
    have extent := within _ _ _ _ ran
    rw [List.length_drop] at extent
    dsimp only
    rw [add_bind (by omega)]
    rfl
  · exact .bind _ (bounded _ c good) fun _ _ _ fine _ => .pure fine trivial
  · refine (within (data.drop offset)).bind fun r extent => .pure ?_
    rw [List.length_drop] at extent
    dsimp only
    omega

end

section

variable {decode : List UInt8 → FieldType → DecodeM (DecodedValue × Nat)}
  {guarded : List UInt8 → FieldType → GuardedM (DecodedValue × Nat)}

/-- What a decode of values must satisfy, on the machine and off it. -/
structure DecodesAlike (dec : PvdDecoder) (guarded : List UInt8 → FieldType → GuardedM (DecodedValue × Nat))
    (decode : List UInt8 → FieldType → DecodeM (DecodedValue × Nat)) : Prop where
  agrees : ∀ data ft, data.length < 2 ^ 63 → dec.Agrees 2 (guarded data ft) (decode data ft)
  bounded : dec.DecodesValues decode
  within : DecodesWithin decode

theorem decodeFields_agrees (alike : dec.DecodesAlike guarded decode) (small : data.length < 2 ^ 63)
    (fs : List FieldDesc) (offset : Nat) :
    dec.Agrees 2 (Guarded.decodeFields guarded data fs offset) (decodeFields decode data fs offset) := by
  induction fs generalizing offset with
  | nil => exact .pure _
  | cons f fs ih =>
    intro c placed
    unfold Guarded.decodeFields PvdDecoder.decodeFields
    refine ite_agrees (fun _ => rfl) fun inside => ?_
    rw [sliceFrom_bind (by omega)]
    refine Agrees.bind placed (attempt_lift (alike.agrees _ f.fieldType (drop_small small offset) c placed))
      (alike.bounded _ _ _ placed.good).attempt fun o t ran placed' _ => ?_
    have extent := (alike.within _ _).attempt _ _ _ ran
    rcases o with _ | ⟨value, consumed⟩
    · rfl
    · have short := extent _ rfl
      rw [List.length_drop] at short
      dsimp only at short ⊢
      rw [add_bind (by omega)]
      exact bind_lift (ih _ t placed') fun _ _ _ => rfl

theorem structureBody_agrees (alike : dec.DecodesAlike guarded decode) (small : data.length < 2 ^ 63)
    (desc : StructureDesc) :
    dec.Agrees 2 (Guarded.structureBody guarded data desc) (structureBody decode data desc) :=
  fun c placed => bind_lift (decodeFields_agrees alike small desc.fields 0 c placed) fun _ _ _ => rfl

theorem decodeStructureWith_agrees (fit : dec.limits.Fit) (alike : dec.DecodesAlike guarded decode)
    (small : data.length < 2 ^ 63) (desc : StructureDesc) :
    dec.Agrees 1 (Guarded.decodeStructureWith dec guarded data desc) (dec.decodeStructureWith decode data desc) :=
  scope_agrees fit (by omega) (structureBody_agrees alike small desc)

theorem structureItem_present {indicator : UInt8} {offset : Nat} {desc : StructureDesc}
    (found : data[offset]? = some indicator) (present : indicator ≠ 0) :
    dec.structureItem decode data desc offset
      = dec.decodeStructureWith decode (data.drop (offset + 1)) desc >>= fun r => pure (r.1, offset + 1 + r.2) := by
  unfold structureItem
  rw [found]
  split
  case h_1 none => cases none
  case h_2 zero => exact absurd (Option.some.inj zero) present
  case h_3 => rfl

theorem structureItem_alike (fit : dec.limits.Fit) (alike : dec.DecodesAlike guarded decode)
    (small : data.length < 2 ^ 63) (desc : StructureDesc) :
    dec.ItemsAlike data (Guarded.structureItem dec guarded data desc) (dec.structureItem decode data desc) := by
  refine ⟨fun offset inside c placed => ?_, structureItem_closed frugal_closed alike.bounded desc,
    fun offset _ => structureItem_within alike.within desc offset⟩
  cases found : data[offset]? with
  | none =>
    have past := List.getElem?_eq_none_iff.mp found
    rw [Guarded.structureItem, PvdDecoder.structureItem, found, if_pos past, add_bind (by omega)]
    rfl
  | some indicator =>
    have here := (List.getElem?_eq_some_iff.mp found).1
    rw [Guarded.structureItem, if_neg (by omega), index_bind found, add_bind (by omega)]
    by_cases null : indicator = 0
    · subst null
      rw [PvdDecoder.structureItem, found]
      rfl
    · rw [if_neg null, structureItem_present found null, sliceFrom_bind (by omega)]
      refine bind_lift (decodeStructureWith_agrees fit alike (drop_small small _) desc c placed) fun r t ran => ?_
      have extent := decodeStructureWith_within alike.within _ desc _ _ _ ran
      rw [List.length_drop] at extent
      dsimp only
      rw [add_bind (by omega)]
      rfl

theorem unionItem_alike (alike : dec.DecodesAlike guarded decode) (small : data.length < 2 ^ 63)
    (fields : List FieldDesc) :
    dec.ItemsAlike data (Guarded.unionItem dec guarded data fields) (dec.unionItem decode data fields) := by
  refine ⟨fun offset inside c placed => ?_, unionItem_closed frugal_closed alike.bounded fields,
    fun offset inside => unionItem_within alike.within fields offset inside⟩
  rw [Guarded.unionItem, sliceFrom_bind inside]
  refine bindExcept_lift (decodeSize_agrees _ c) fun selector sized => ?_
  have start := decodeSizePrefixed_extent sized
  rw [List.length_drop] at start
  dsimp only
  rw [add_bind (by omega)]
  refine bindExcept_lift rfl fun field _ => ?_
  rw [sliceFrom_bind (by omega)]
  refine bind_lift (alike.agrees _ _ (drop_small small _) c (placed.loosen (by omega))) fun r t ran => ?_
  have extent := alike.within _ _ _ _ _ ran
  rw [List.length_drop] at extent
  rw [add_bind (by omega)]
  rfl

section

variable (fit : dec.limits.Fit) (alike : dec.DecodesAlike guarded decode) (small : data.length < 2 ^ 63)

include fit alike small

theorem variantValue_agrees : dec.Agrees 1 (Guarded.variantValue dec guarded data) (dec.variantValue decode data) := by
  intro c placed
  rcases data with _ | ⟨first, rest⟩
  · rfl
  rw [Guarded.variantValue, if_neg (by simp), index_bind (x := first) rfl]
  by_cases null : first = 0xFF
  · subst null
    rfl
  · have model : dec.variantValue decode (first :: rest)
        = dec.parseTypeDesc dec.limits.maxDepth (first :: rest) >>= fun r => noteVariant r.1 >>= fun _ =>
            decode ((first :: rest).drop r.2) r.1 >>= fun v => pure (v.1, r.2 + v.2) := by
      unfold variantValue
      split
      case h_1 empty => cases empty
      case h_2 same => exact absurd (List.cons.inj same).1 null
      case h_3 => rfl
    have parsing := parseTypeDesc_alike fit dec.limits.maxDepth
    rw [if_neg null, model]
    refine Agrees.bind placed (parsing.agrees _ small c (placed.loosen (by omega)))
      (parsing.bounded (first :: rest) c placed.good) fun r t parsed placed' resolved => ?_
    have start := parsing.within _ _ _ _ parsed
    obtain ⟨keeps, -⟩ := (parsing.bounded (first :: rest) c placed.good).of_eq parsed
    have height := resolved.height
    have covered := resolved.covered placed.good keeps
    refine bind_lift rfl fun _ u noted => ?_
    cases noted
    rw [sliceFrom_bind start.2]
    have loose := placed'.loosen (by omega : 1 ≤ 2)
    have inside : dec.Placed 2 { t with resolved := { t.resolved with variants := t.resolved.variants ++ [r.1] } } :=
      ⟨placed'.good.noted (by omega) covered, loose.depth, loose.scope, loose.limit⟩
    refine bind_lift (alike.agrees _ _ (drop_small small _) _ inside) fun v w ran => ?_
    have extent := alike.within _ _ _ _ _ ran
    rw [List.length_drop] at extent
    dsimp only
    rw [add_bind (by omega)]
    rfl

theorem decodeValueWith_agrees (ft : FieldType) :
    dec.Agrees 1 (Guarded.decodeValueWith dec guarded data ft) (dec.decodeValueWith decode data ft) := by
  cases ft with
  | scalar tc => exact fun c _ => decodeScalar_agrees data tc c
  | string | boundedString _ => exact fun c _ => bind_lift (decodeString_agrees small c) fun _ _ _ => rfl
  | scalarArray tc =>
    exact decodeArray_agrees (itemAt_alike small (fun rest _ c _ => decodeScalar_agrees rest tc c)
      (fun _ _ good => .ofExcept good fun _ _ => trivial) fun _ => .ofExcept fun _ decoded => (decodeScalar_within decoded).2)
  | stringArray =>
    exact decodeArray_agrees (itemAt_alike small (fun _ short c _ => decodeString_agrees short c)
      (fun _ _ good => .ofExcept good fun _ _ => trivial)
      fun _ => .ofExcept fun _ decoded => (decodeStringPrefixed_extent decoded).2)
  | «structure» desc => exact decodeStructureWith_agrees fit alike small desc
  | structureArray desc => exact decodeArray_agrees (structureItem_alike fit alike small desc)
  | union fields => exact (unionItem_alike alike small fields).agrees 0 (Nat.zero_le _)
  | unionArray fields => exact decodeArray_agrees (unionItem_alike alike small fields)
  | variant => exact variantValue_agrees fit alike small
  | variantArray =>
    exact decodeArray_agrees (itemAt_alike small
      (fun rest short c placed => alike.agrees rest .variant short c (placed.loosen (by omega)))
      (fun rest c good => alike.bounded rest .variant c good) fun rest => alike.within rest .variant)

end

end

theorem decodeValueFuel_alike (fit : dec.limits.Fit) (fuel : Nat) :
    dec.DecodesAlike (Guarded.decodeValueFuel dec fuel) (dec.decodeValueFuel fuel) := by
  induction fuel with
  | zero =>
    exact ⟨fun _ _ _ => scope_agrees fit (by omega) (enter_agrees fit (by omega) (Agrees.fail _ : dec.Agrees 1 _ _)),
      decodeValueFuel_bounded 0, decodeValueFuel_within 0⟩
  | succ fuel ih =>
    exact ⟨fun _ ft small => scope_agrees fit (by omega) (enter_agrees fit (by omega) (decodeValueWith_agrees fit ih small ft)),
      decodeValueFuel_bounded _, decodeValueFuel_within _⟩

theorem decodeStructure_agrees (fit : dec.limits.Fit) (small : data.length < 2 ^ 63) (desc : StructureDesc) :
    dec.Agrees 1 (Guarded.decodeStructure dec data desc) (dec.decodeStructure data desc) :=
  decodeStructureWith_agrees fit (decodeValueFuel_alike fit _) small desc

end Spvirit.PvdDecoder
