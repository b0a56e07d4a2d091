import Spvirit.Client.PutRoundTrip
import Spvirit.Foundation.SplitOn
import Spvirit.Gateway.Convert
import Spvirit.Payload.Filter
import Spvirit.Server.PutBody

/-! A PUT through the gateway: decoded, converted to JSON and encoded against the narrowed descriptor. -/

namespace Spvirit.Gateway

open PvdDecoder Client

def exactScalar : TypeCode → Bool
  | .boolean | .int8 | .int16 | .int32 | .int64 | .uint8 | .uint16 | .uint32 | .uint64 => true
  | _ => false

/-- A leaf of that type holds the value, within what the decoder accepts. -/
def Holds : FieldType → DecodedValue → Prop
  | .scalar tc, v => exactScalar tc = true ∧ v.scalarCode = some tc
  | .string, v => ∃ s, v = .string s ∧ Short s
  | .boundedString _, v => ∃ s, v = .string s ∧ Short s
  | .scalarArray tc, v => exactScalar tc = true ∧ ∃ vs, v = .array vs ∧
      vs.length ≤ DecodeLimits.default.maxScalarArray ∧ ∀ w ∈ vs, w.scalarCode = some tc
  | .stringArray, v => ∃ vs, v = .array vs ∧ vs.length ≤ DecodeLimits.default.maxStringArray ∧
      ∀ w ∈ vs, ∃ s, w = .string s ∧ Short s
  | _, _ => False

section

variable {ops : JsonOps} {widen : F32 → F64} {isBe : Bool}

theorem integer_injective {v w : DecodedValue} {tc : TypeCode} {i : Int} (left : v.scalarCode = some tc)
    (right : w.scalarCode = some tc) (leftInt : v.integer = some i) (rightInt : w.integer = some i) : v = w := by
  cases v <;> simp only [DecodedValue.scalarCode, Option.some.injEq, reduceCtorEq] at left <;>
    simp only [DecodedValue.integer, Option.some.injEq, reduceCtorEq] at leftInt <;> subst left leftInt <;>
    cases w <;> simp only [DecodedValue.scalarCode, Option.some.injEq, reduceCtorEq] at right <;>
    simp only [DecodedValue.integer, Option.some.injEq] at rightInt
  all_goals first
    | rw [Int8.toInt_inj.mp rightInt]
    | rw [Int16.toInt_inj.mp rightInt]
    | rw [Int32.toInt_inj.mp rightInt]
    | rw [Int64.toInt_inj.mp rightInt]
    | rw [UInt8.toNat_inj.mp (Int.ofNat.inj rightInt)]
    | rw [UInt16.toNat_inj.mp (Int.ofNat.inj rightInt)]
    | rw [UInt32.toNat_inj.mp (Int.ofNat.inj rightInt)]
    | rw [UInt64.toNat_inj.mp (Int.ofNat.inj rightInt)]

theorem givenScalar_unique {tc : TypeCode} {j : Json} {v w : DecodedValue} (left : GivenScalar tc j v)
    (right : GivenScalar tc j w) : v = w := by
  cases j with
  | bool b => exact left.2.trans right.2.symm
  | number n =>
    obtain ⟨leftCode, i, leftInt, same⟩ := left
    obtain ⟨rightCode, i', rightInt, same'⟩ := right
    obtain rfl : i = i' := Option.some.inj (same.symm.trans same')
    exact integer_injective leftCode rightCode leftInt rightInt
  | null | string _ | array _ | object _ => exact left.elim

theorem givenString_unique {j : Json} {v w : DecodedValue} (left : GivenString j v) (right : GivenString j w) : v = w := by
  obtain ⟨s, rfl, rfl⟩ := left
  obtain ⟨s', same, rfl⟩ := right
  rw [Json.string.inj same]

theorem encodeSigned_ofI64 {x min max : Int64} {push : Int64 → List UInt8} {name : String}
    (low : min.toInt ≤ x.toInt) (high : x.toInt ≤ max.toInt) :
    encodeSigned ops (.number (.ofI64 x)) name min max push = .ok (push x) := by
  have converted : jsonToInt ops (.number (.ofI64 x)) name = .ok x := by
    simp only [jsonToInt, JsonNumber.asI64_ofI64]
  have inside : ¬ (x < min ∨ max < x) := by
    rw [not_or, Int64.not_lt, Int64.not_lt]
    exact ⟨Int64.le_iff_toInt_le.mpr low, Int64.le_iff_toInt_le.mpr high⟩
  rw [encodeSigned, converted]
  simp only [bind, Except.bind, ensureRangeI64, if_neg inside]
  rfl

theorem encodeUnsigned_ofU64 {x min max : UInt64} {push : UInt64 → List UInt8} {name : String} (low : min ≤ x)
    (high : x ≤ max) : encodeUnsigned ops (.number (.ofU64 x)) name min max push = .ok (push x) := by
  have inside : ¬ (x < min ∨ max < x) := by
    rw [not_or, UInt64.not_lt, UInt64.not_lt]
    exact ⟨low, high⟩
  have converted : jsonToUint ops (.number (.ofU64 x)) name = .ok x := rfl
  rw [encodeUnsigned, converted]
  simp only [bind, Except.bind, ensureRangeU64, if_neg inside]
  rfl

variable (ops widen isBe) in
/-- A value of the type is converted, and the result gives it back to the encoder. -/
def Forwards (ft : FieldType) (v : DecodedValue) : Prop :=
  ∃ j, decodedToJson widen v = .ok j ∧ (∀ levels, Carried DecodeLimits.default ft levels j) ∧
    (∀ w, Given ft j w → w = v) ∧ ∀ name, ∃ bytes, encodeTyped ops isBe false ft j name = .ok bytes

theorem scalar_forwards {tc : TypeCode} {v : DecodedValue} (exactly : exactScalar tc = true)
    (code : v.scalarCode = some tc) :
    ∃ j, decodedToJson widen v = .ok j ∧ GivenScalar tc j v ∧
      ∀ name, ∃ bytes, Client.encodeScalarValue ops isBe tc j name = .ok bytes := by
  cases v <;> simp only [DecodedValue.scalarCode, Option.some.injEq, reduceCtorEq] at code <;> subst code
  case boolean b => exact ⟨.bool b, rfl, ⟨rfl, rfl⟩, fun _ => ⟨_, rfl⟩⟩
  case int8 x | int16 x | int32 x =>
    have low := x.le_toInt
    have high := x.toInt_lt
    simp only [← Int8.toInt_toInt64, ← Int16.toInt_toInt64, ← Int32.toInt_toInt64] at low high
    exact ⟨_, rfl, ⟨rfl, x.toInt, rfl, by simp [JsonNumber.integer_ofI64]⟩, fun _ =>
      ⟨_, encodeSigned_ofI64 low (Int.le_of_lt_add_one high)⟩⟩
  case int64 x =>
    refine ⟨_, rfl, ⟨rfl, x.toInt, rfl, JsonNumber.integer_ofI64 x⟩, fun name =>
      ⟨ByteOrder.toBytes isBe 8 x.toUInt64.toNat, ?_⟩⟩
    simp only [Client.encodeScalarValue, jsonToInt, JsonNumber.asI64_ofI64]
    rfl
  case uint8 x | uint16 x | uint32 x =>
    refine ⟨_, rfl, ⟨rfl, x.toNat, rfl, rfl⟩, fun _ => ⟨_, encodeUnsigned_ofU64 (UInt64.zero_le) ?_⟩⟩
    simpa [UInt64.le_iff_toNat_le] using Nat.le_of_lt_succ x.toNat_lt
  case uint64 x => exact ⟨_, rfl, ⟨rfl, x.toNat, rfl, rfl⟩, fun _ => ⟨_, rfl⟩⟩
  all_goals cases exactly

theorem items_forward {item : Json → String → Except String (List UInt8)} {vs : List DecodedValue}
    (given : Json → DecodedValue → Prop)
    (each : ∀ v ∈ vs, ∃ j, decodedToJson widen v = .ok j ∧ given j v ∧ ∀ name, ∃ bytes, item j name = .ok bytes) :
    ∃ js, itemsToJson widen vs = .ok js ∧ List.Forall₂ given js vs ∧
      ∀ name, ∃ bytes, encodeItems (fun j => item j name) js = .ok bytes := by
  induction vs with
  | nil => exact ⟨[], rfl, .nil, fun _ => ⟨[], rfl⟩⟩
  | cons v vs ih =>
    obtain ⟨j, converted, gives, encodes⟩ := each v List.mem_cons_self
    obtain ⟨js, others, all, rest⟩ := ih fun w member => each w (List.mem_cons_of_mem v member)
    refine ⟨j :: js, ?_, .cons gives all, fun name => ?_⟩
    · rw [itemsToJson, converted, others]
      rfl
    · obtain ⟨bytes, head⟩ := encodes name
      obtain ⟨more, tail⟩ := rest name
      refine ⟨bytes ++ more, ?_⟩
      rw [encodeItems, head, tail]
      rfl

theorem array_forwards {item : Json → String → Except String (List UInt8)} {vs : List DecodedValue} {expects : String}
    (given : Json → DecodedValue → Prop)
    (each : ∀ v ∈ vs, ∃ j, decodedToJson widen v = .ok j ∧ given j v ∧ ∀ name, ∃ bytes, item j name = .ok bytes) :
    ∃ js, decodedToJson widen (.array vs) = .ok (.array js) ∧ List.Forall₂ given js vs ∧
      ∀ name, ∃ bytes, encodeArray isBe expects (fun j => item j name) (.array js) name = .ok bytes := by
  obtain ⟨js, converted, all, encodes⟩ := items_forward given each
  refine ⟨js, ?_, all, fun name => ?_⟩
  · rw [decodedToJson, converted]
    rfl
  · obtain ⟨bytes, items⟩ := encodes name
    refine ⟨pushSize js.length isBe ++ bytes, ?_⟩
    rw [encodeArray, items]
    rfl

theorem forall₂_partner {α β : Type} {related : α → β → Prop} {xs : List α} {ys : List β}
    (all : List.Forall₂ related xs ys) : ∀ x ∈ xs, ∃ y ∈ ys, related x y := by
  induction all with
  | nil => simp
  | cons head _ ih =>
    refine List.forall_mem_cons.mpr ⟨⟨_, List.mem_cons_self, head⟩, fun x member => ?_⟩
    obtain ⟨y, among, holds⟩ := ih x member
    exact ⟨y, List.mem_cons_of_mem _ among, holds⟩

theorem leaf_forwards {ft : FieldType} {v : DecodedValue} (holds : Holds ft v) : Forwards ops widen isBe ft v := by
  cases ft with
  | scalar tc =>
    obtain ⟨exactly, code⟩ := holds
    obtain ⟨j, converted, given, encodes⟩ := @scalar_forwards ops widen isBe tc v exactly code
    exact ⟨j, converted, fun _ => ⟨v, given⟩, fun w gives => givenScalar_unique gives given, encodes⟩
  | string | boundedString _ =>
    obtain ⟨s, rfl, short⟩ := holds
    refine ⟨.string s, rfl, fun _ => ⟨s, rfl, short⟩, ?_, fun _ => ⟨_, rfl⟩⟩
    rintro w ⟨s', same, rfl⟩
    rw [Json.string.inj same]
  | scalarArray tc =>
    obtain ⟨exactly, vs, rfl, within, codes⟩ := holds
    obtain ⟨js, converted, all, encodes⟩ := @array_forwards widen isBe
      (fun j name => Client.encodeScalarValue ops isBe tc j name) vs "expects array" (GivenScalar tc)
      fun v member => scalar_forwards exactly (codes v member)
    have length : js.length = vs.length := all.length_eq
    refine ⟨.array js, converted, fun _ => ⟨js, rfl, by rw [length]; exact within, ?_⟩, ?_, encodes⟩
    · intro k member
      obtain ⟨v, -, given⟩ := forall₂_partner all k member
      exact ⟨v, given⟩
    · rintro w ⟨js', ws, same, rfl, given⟩
      cases same
      rw [List.right_unique_forall₂' (fun j v w => @givenScalar_unique tc j v w) given all]
  | stringArray =>
    obtain ⟨vs, rfl, within, texts⟩ := holds
    obtain ⟨js, converted, all, encodes⟩ := @array_forwards widen isBe
      (fun j name => encodeStringValue isBe j name) vs "expects array" GivenString fun v member => by
        obtain ⟨s, rfl, -⟩ := texts v member
        exact ⟨.string s, rfl, ⟨s, rfl, rfl⟩, fun _ => ⟨_, rfl⟩⟩
    have length : js.length = vs.length := all.length_eq
    refine ⟨.array js, converted, fun _ => ⟨js, rfl, by rw [length]; exact within, ?_⟩, ?_, encodes⟩
    · intro k member
      obtain ⟨v, among, s, rfl, same⟩ := forall₂_partner all k member
      obtain ⟨s', same', short⟩ := texts v among
      cases same.symm.trans same'
      exact ⟨s, rfl, short⟩
    · rintro w ⟨js', ws, same, rfl, given⟩
      cases same
      rw [List.right_unique_forall₂' (fun j v w => @givenString_unique j v w) given all]
  | _ => exact holds.elim

theorem array_stands {ft : FieldType} {item : List UInt8 → Nat → DecodeM (DecodedValue × Nat)}
    {minElem limit levels : Nat} {kind : String} {vs : List DecodedValue}
    (array : (fun data => (PvdDecoder.new isBe).decodeValueWith ((PvdDecoder.new isBe).decodeValueFuel levels) data ft)
      = fun data => (PvdDecoder.new isBe).decodeArray data minElem kind limit (item data))
    (small : limit < 2 ^ 32) (within : vs.length ≤ limit)
    (wide : ∀ v ∈ vs, minElem ≤ (pushDecodedValue isBe v).length)
    (each : ∀ v ∈ vs, ∀ data offset rest, data.drop offset = pushDecodedValue isBe v ++ rest →
      (PvdDecoder.new isBe).Yields levels 0 (item data offset) (v, offset + (pushDecodedValue isBe v).length)) :
    (PvdDecoder.new isBe).StandsAs (levels + 1) ft (pushDecodedValue isBe (.array vs)) (.array vs) := by
  have stands := standsAs_array (vs.map fun v => (pushDecodedValue isBe v, v)) (congrFun array)
    (by rw [List.length_map]; omega) (by rwa [List.length_map]) (by simpa using wide) (by simpa using each)
  rw [pushDecodedValue, pushDecodedItems_eq]
  simp only [List.length_map, List.flatMap_map, List.map_map, Function.comp_def, List.map_id_fun'] at stands
  exact stands

theorem holds_stands {ft : FieldType} {v : DecodedValue} (holds : Holds ft v) (levels : Nat) :
    (PvdDecoder.new isBe).StandsAs (levels + 1) ft (pushDecodedValue isBe v) v ∧ pushDecodedValue isBe v ≠ [] := by
  cases ft with
  | scalar tc => exact ⟨standsAs_scalar holds.2, (scalar_bytes_ne_nil holds.2).2⟩
  | string =>
    obtain ⟨s, rfl, short⟩ := holds
    exact ⟨standsAs_string short, pushSize_ne_nil _ _⟩
  | boundedString bound =>
    obtain ⟨s, rfl, short⟩ := holds
    exact ⟨standsAs_boundedString bound short, pushSize_ne_nil _ _⟩
  | scalarArray tc =>
    obtain ⟨-, vs, rfl, within, codes⟩ := holds
    refine ⟨array_stands rfl (by simp [PvdDecoder.new, DecodeLimits.default]) within ?_ ?_, pushSize_ne_nil _ _⟩
    · exact fun w member => (scalar_bytes_ne_nil (codes w member)).1
    · intro w member data offset rest here
      rw [here]
      exact (Yields.ofExcept (decodeScalar_push (codes w member))).bindFree .pure
  | stringArray =>
    obtain ⟨vs, rfl, within, texts⟩ := holds
    refine ⟨array_stands rfl (by simp [PvdDecoder.new, DecodeLimits.default]) within ?_ ?_, pushSize_ne_nil _ _⟩
    · intro w member
      obtain ⟨s, rfl, -⟩ := texts w member
      exact List.length_pos_iff.mpr (pushSize_ne_nil _ _)
    · intro w member data offset rest here
      obtain ⟨s, rfl, short⟩ := texts w member
      rw [here]
      exact (readsAlways_string (PvdDecoder.new isBe) levels short rest).bindFree .pure
  | _ => exact holds.elim

/-- `Selection isBe fields flags values bytes`: the flags are the bits of the fields, depth
first, with just the selected leaves set, and the bytes are the values of those leaves. -/
inductive Selection (isBe : Bool) : List FieldDesc → List Bool → List (String × DecodedValue) → List UInt8 → Prop
  | nil : Selection isBe [] [] [] []
  | leaf (name : String) {ft v fs flags vs bs} : ft.isStructure = false → Holds ft v → Selection isBe fs flags vs bs →
      Selection isBe (⟨name, ft⟩ :: fs) (true :: flags) ((name, v) :: vs) (pushDecodedValue isBe v ++ bs)
  | skipped (name : String) {ft fs flags vs bs} : ft.isStructure = false → Selection isBe fs flags vs bs →
      Selection isBe (⟨name, ft⟩ :: fs) (false :: flags) vs bs
  | inside (name : String) {desc inner ws bytes fs flags vs bs} : Selection isBe desc.fields inner ws bytes →
      inner.any id = true → Selection isBe fs flags vs bs →
      Selection isBe (⟨name, .structure desc⟩ :: fs) (false :: (inner ++ flags)) ((name, .structure ws) :: vs) (bytes ++ bs)
  | absent (name : String) {desc fs flags vs bs} : Selection isBe fs flags vs bs →
      Selection isBe (⟨name, .structure desc⟩ :: fs) (false :: (List.replicate (countFields desc.fields) false ++ flags))
        vs bs

section

variable {fs : List FieldDesc} {flags : List Bool} {vs : List (String × DecodedValue)} {bytes : List UInt8}

section

variable (selection : Selection isBe fs flags vs bytes)

include selection

theorem Selection.values_ne_nil (selects : flags.any id = true) : vs ≠ [] := by
  induction selection with
  | nil => cases selects
  | leaf | inside => exact List.cons_ne_nil _ _
  | skipped _ _ _ ih | absent _ _ ih => exact ih (by simpa using selects)

theorem Selection.sent : Sent (PvdDecoder.new isBe) fs flags vs bytes := by
  induction selection with
  | nil => exact .nil
  | leaf name leaf holds tail ih =>
    obtain ⟨stands, nonempty⟩ := @holds_stands isBe _ _ holds 31
    exact .sent name leaf nonempty stands ih
  | skipped name leaf tail ih => exact .skipped name leaf ih
  | inside name nested selects tail ihNested ih => exact .walked name ihNested selects (nested.values_ne_nil selects) ih
  | absent name tail ih => exact .absent name ih

theorem Selection.names : ∀ p ∈ vs, ∃ f ∈ fs, f.name = p.1 := by
  induction selection with
  | nil => simp
  | leaf name _ _ _ ih | inside name _ _ _ _ ih =>
    refine List.forall_mem_cons.mpr ⟨⟨_, List.mem_cons_self, rfl⟩, fun p member => ?_⟩
    obtain ⟨f, among, same⟩ := ih p member
    exact ⟨f, List.mem_cons_of_mem _ among, same⟩
  | skipped name _ _ ih | absent name _ ih =>
    intro p member
    obtain ⟨f, among, same⟩ := ih p member
    exact ⟨f, List.mem_cons_of_mem _ among, same⟩

theorem Selection.other_names {name : String} (own : ∀ g ∈ fs, g.name ≠ name) : ∀ p ∈ vs, p.1 ≠ name := by
  intro p member same
  obtain ⟨f, among, named⟩ := selection.names p member
  exact own f among (named.trans same)

end

variable (widen) in
/-- The entries are the fields, converted. -/
def Converted (vs : List (String × DecodedValue)) (obj : List (String × Json)) : Prop :=
  List.Forall₂ (fun p e => e.1 = p.1 ∧ decodedToJson widen p.2 = .ok e.2) vs obj

variable {obj values : List (String × Json)}

theorem Converted.names (converted : Converted widen vs obj) (good : String → Prop)
    (all : ∀ p ∈ vs, good p.1) : ∀ e ∈ obj, good e.1 := by
  induction converted with
  | nil => simp
  | cons head _ ih =>
    obtain ⟨own, others⟩ := List.forall_mem_cons.mp all
    refine List.forall_mem_cons.mpr ⟨?_, ih others⟩
    rwa [head.1]

theorem fieldsToJson_append {map : List (String × Json)} (converted : Converted widen vs obj)
    (distinct : (vs.map Prod.fst).Nodup) (new : ∀ p ∈ vs, ∀ e ∈ map, e.1 ≠ p.1) :
    fieldsToJson widen vs map = .ok (map ++ obj) := by
  induction converted generalizing map with
  | nil => rw [fieldsToJson, List.append_nil]
  | @cons p e vs obj head tail ih =>
    obtain ⟨named, value⟩ := head
    obtain ⟨own, others⟩ := List.nodup_cons.mp distinct
    obtain ⟨first, later⟩ := List.forall_mem_cons.mp new
    rw [fieldsToJson, value]
    change fieldsToJson widen vs (Json.insert map p.1 e.2) = _
    rw [Json.insert_new first, ih others, List.append_assoc, ← named]
    · rfl
    · intro q member x among
      rcases List.mem_append.mp among with old | added
      · exact later q member x old
      · obtain rfl := List.mem_singleton.mp added
        intro same
        exact own (same ▸ List.mem_map_of_mem member)

section

variable (selection : Selection isBe fs flags vs bytes) (distinct : DistinctFields fs)

include selection distinct

theorem Selection.nodup : (vs.map Prod.fst).Nodup := by
  induction selection with
  | nil => exact List.nodup_nil
  | leaf name _ _ tail ih | inside name _ _ tail _ ih =>
    refine List.nodup_cons.mpr ⟨fun among => ?_, ih distinct.2.2⟩
    obtain ⟨p, member, same⟩ := List.mem_map.mp among
    exact tail.other_names distinct.1 p member same
  | skipped _ _ _ ih | absent _ _ ih => exact ih distinct.2.2

theorem Selection.object {obj : List (String × Json)} (converted : Converted widen vs obj) :
    decodedToJson widen (.structure vs) = .ok (.object obj) := by
  have value : fieldsToJson widen vs [] = .ok ([] ++ obj) :=
    fieldsToJson_append converted (selection.nodup distinct) fun _ _ _ impossible => by cases impossible
  rw [decodedToJson, value]
  rfl

theorem Selection.converted : ∃ obj, Converted widen vs obj := by
  induction selection with
  | nil => exact ⟨[], .nil⟩
  | leaf name leaf holds tail ih =>
    obtain ⟨obj, others⟩ := ih distinct.2.2
    obtain ⟨j, value, -⟩ := @leaf_forwards noTexts widen isBe _ _ holds
    exact ⟨(name, j) :: obj, .cons ⟨rfl, value⟩ others⟩
  | inside name nested selects tail ihNested ih =>
    obtain ⟨obj, others⟩ := ih distinct.2.2
    obtain ⟨inner, fields⟩ := ihNested distinct.2.1
    exact ⟨(name, .object inner) :: obj, .cons ⟨rfl, nested.object distinct.2.1 fields⟩ others⟩
  | skipped _ _ _ ih | absent _ _ ih => exact ih distinct.2.2

end

theorem checkKeys_of_named (named : ∀ e ∈ obj, ∃ f ∈ fs, f.name = e.1) :
    checkKeys fs obj = .ok () := by
  have absent : (obj.find? fun e => !fs.any fun f => f.name = e.1) = none := by
    refine List.find?_eq_none.mpr fun e member => ?_
    obtain ⟨f, among, same⟩ := named e member
    simpa using ⟨f, among, same⟩
  rw [checkKeys, absent]

variable (ops isBe) in
/-- The encoder accepts the entries for the fields, they are carried, and they give just
these values and flags. -/
structure Accepts (fs : List FieldDesc) (values : List (String × Json)) (vs : List (String × DecodedValue))
    (flags : List Bool) : Prop where
  carried : CarriedFields DecodeLimits.default fs values
  flagged : namedFlags fs values = flags
  gives : ∀ ws, GivenFields fs values ws → ws = vs
  encoded : ∀ body, ∃ next, encodePartialFields ops isBe fs values body = .ok next

theorem Accepts.without {f : FieldDesc} (missing : Json.get values f.name = none)
    (tail : Accepts ops isBe fs values vs flags) :
    Accepts ops isBe (f :: fs) values vs (fieldFlags f.fieldType none ++ flags) := by
  refine ⟨⟨?_, tail.carried⟩, ?_, fun ws given => ?_, fun body => ?_⟩
  · rw [missing]
    exact carriedField_none f.fieldType
  · rw [namedFlags, missing, tail.flagged]
  · rw [GivenFields, missing] at given
    exact tail.gives ws given
  · obtain ⟨mid, passed⟩ : ∃ mid, encodePartialField ops isBe f.fieldType f.name none body = .ok mid := by
      cases f.fieldType <;> exact ⟨_, rfl⟩
    obtain ⟨next, rest⟩ := tail.encoded mid
    refine ⟨next, ?_⟩
    rw [encodePartialFields, missing, passed]
    exact rest

theorem Accepts.selected {name : String} {ft : FieldType} {j : Json} {v : DecodedValue}
    (found : Json.get values name = some j) (carried : CarriedField DecodeLimits.default ft (some j))
    (gives : ∀ w, Given ft j w → w = v)
    (encoded : ∀ body, ∃ next, encodePartialField ops isBe ft name (some j) body = .ok next)
    (tail : Accepts ops isBe fs values vs flags) :
    Accepts ops isBe (⟨name, ft⟩ :: fs) values ((name, v) :: vs) (fieldFlags ft (some j) ++ flags) := by
  refine ⟨⟨?_, tail.carried⟩, ?_, fun ws given => ?_, fun body => ?_⟩
  · rw [found]
    exact carried
  · rw [namedFlags, found, tail.flagged]
  · rw [GivenFields, found] at given
    obtain ⟨w, rest, rfl, own, others⟩ := given
    rw [gives w own, tail.gives rest others]
  · obtain ⟨mid, own⟩ := encoded body
    obtain ⟨next, rest⟩ := tail.encoded mid
    refine ⟨next, ?_⟩
    rw [encodePartialFields, found, own]
    exact rest

theorem Converted.cons {name : String} {ft : FieldType} {v : DecodedValue} {obj values : List (String × Json)}
    (converted : Converted widen ((name, v) :: vs) obj) (own : ∀ g ∈ fs, g.name ≠ name)
    (same : ∀ f ∈ ⟨name, ft⟩ :: fs, Json.get values f.name = Json.get obj f.name) :
    ∃ j rest, decodedToJson widen v = .ok j ∧ Converted widen vs rest ∧ Json.get values name = some j ∧
      ∀ f ∈ fs, Json.get values f.name = Json.get rest f.name := by
  obtain ⟨⟨_, j⟩, rest, ⟨rfl, value⟩, others, rfl⟩ := List.forall₂_cons_left_iff.mp converted
  obtain ⟨here, behind⟩ := List.forall_mem_cons.mp same
  refine ⟨j, rest, value, others, here.trans Json.get_cons_self, fun f member => ?_⟩
  exact (behind f member).trans (Json.get_cons_other (own f member).symm)

theorem Selection.missing (selection : Selection isBe fs flags vs bytes) {f : FieldDesc}
    (own : ∀ g ∈ fs, g.name ≠ f.name) (converted : Converted widen vs obj)
    (same : Json.get values f.name = Json.get obj f.name) : Json.get values f.name = none :=
  same.trans (Json.get_none (converted.names (· ≠ f.name) (selection.other_names own)))

theorem Selection.accepts (selection : Selection isBe fs flags vs bytes) (distinct : DistinctFields fs)
    (converted : Converted widen vs obj)
    (same : ∀ f ∈ fs, Json.get values f.name = Json.get obj f.name) : Accepts ops isBe fs values vs flags := by
  induction selection generalizing obj values with
  | nil => exact ⟨trivial, rfl, fun ws given => given, fun body => ⟨body, rfl⟩⟩
  | @leaf name ft v fs flags vs bs leaf holds tail ih =>
    obtain ⟨j, rest, value, others, found, behind⟩ := converted.cons distinct.1 same
    obtain ⟨j', value', carried, gives, encodes⟩ := @leaf_forwards ops widen isBe ft v holds
    obtain rfl : j = j' := Except.ok.inj (value.symm.trans value')
    have accepts := ih distinct.2.2 others behind
    have flagged : true :: flags = fieldFlags ft (some j) ++ flags := by
      rw [fieldFlags_leaf leaf]
      rfl
    rw [flagged]
    refine .selected found ?_ gives (fun body => ?_) accepts
    · cases ft <;> first | exact fun k same => Option.some.inj same ▸ carried _ | simp [FieldType.isStructure] at leaf
    · obtain ⟨bytes, written⟩ := encodes name
      refine ⟨⟨growBit body.bitset body.bitOffset, body.bitOffset + 1, body.data ++ bytes⟩, ?_⟩
      have step : encodePartialField ops isBe ft name (some j) body = (encodeFieldValue ops isBe ft j name).bind
          fun bytes => .ok ⟨growBit body.bitset body.bitOffset, body.bitOffset + 1, body.data ++ bytes⟩ := by
        cases ft <;> first | rfl | simp [FieldType.isStructure] at leaf
      rw [step, encodeFieldValue, written]
      rfl
  | @skipped name ft fs flags vs bs leaf tail ih =>
    obtain ⟨here, behind⟩ := List.forall_mem_cons.mp same
    have flagged : false :: flags = fieldFlags ft none ++ flags := by
      rw [fieldFlags_leaf leaf]
      rfl
    rw [flagged]
    exact (ih distinct.2.2 converted behind).without (tail.missing distinct.1 converted here)
  | @inside name desc inner ws bytes fs flags vs bs nested selects tail ihNested ih =>
    obtain ⟨j, rest, value, others, found, behind⟩ := converted.cons distinct.1 same
    obtain ⟨inside, fields⟩ := @Selection.converted widen isBe _ _ _ _ nested distinct.2.1
    obtain rfl : j = .object inside := Except.ok.inj (value.symm.trans (nested.object distinct.2.1 fields))
    have accepts := ihNested distinct.2.1 fields fun _ _ => rfl
    have filled : inside ≠ [] := by
      rintro rfl
      cases fields
      exact nested.values_ne_nil selects rfl
    have flagged : false :: (inner ++ flags) = fieldFlags (.structure desc) (some (.object inside)) ++ flags := by
      rw [fieldFlags, accepts.flagged, List.cons_append]
    rw [flagged]
    refine .selected found ?_ ?_ (fun body => ?_) (ih distinct.2.2 others behind)
    · exact fun k same => ⟨inside, (Option.some.inj same).symm, accepts.carried⟩
    · rintro w ⟨obj, ws', same, rfl, given⟩
      cases same
      rw [accepts.gives ws' given]
    · obtain ⟨next, written⟩ := accepts.encoded { body with bitOffset := body.bitOffset + 1 }
      refine ⟨next, ?_⟩
      rw [encodePartialField, if_neg (by simpa using filled),
        checkKeys_of_named (fields.names (fun name => ∃ f ∈ desc.fields, f.name = name) nested.names)]
      exact written
  | @absent name desc fs flags vs bs tail ih =>
    obtain ⟨here, behind⟩ := List.forall_mem_cons.mp same
    exact (ih distinct.2.2 converted behind).without (tail.missing distinct.1 converted here)

/-- Each flag of the first has one of the second at its place or behind it. -/
def Earlier (left right : List Bool) : Prop := ∀ i : Nat, left[i]? = some true → ∃ k : Nat, i ≤ k ∧ right[k]? = some true

theorem Earlier.behind {left right : List Bool} (earlier : Earlier left right) (dropped : List Bool) :
    Earlier left (dropped ++ right) := by
  intro i flag
  obtain ⟨k, later, found⟩ := earlier i flag
  refine ⟨dropped.length + k, by omega, ?_⟩
  rw [List.getElem?_append_right (Nat.le_add_right _ _), Nat.add_sub_cancel_left, found]

theorem Earlier.both {left right : List Bool} (earlier : Earlier left right) (kept : List Bool) :
    Earlier (kept ++ left) (kept ++ right) := by
  intro i flag
  rcases Nat.lt_or_ge i kept.length with inside | beyond
  · rw [List.getElem?_append_left inside] at flag
    exact ⟨i, Nat.le_refl i, by rw [List.getElem?_append_left inside, flag]⟩
  · rw [List.getElem?_append_right beyond] at flag
    obtain ⟨k, later, found⟩ := earlier _ flag
    refine ⟨kept.length + k, by omega, ?_⟩
    rw [List.getElem?_append_right (Nat.le_add_right _ _), Nat.add_sub_cancel_left, found]

theorem Earlier.fits {left right : List Bool} (earlier : Earlier left right) (fits : FitsSize right) : FitsSize left := by
  intro i flag
  obtain ⟨k, later, found⟩ := earlier i flag
  have bound := fits k found
  omega

theorem Selection.filter (selection : Selection isBe fs flags vs bytes) (keep : String → Bool)
    (kept : ∀ p ∈ vs, keep p.1 = true) :
    ∃ flags', Selection isBe (fs.filter fun f => keep f.name) flags' vs bytes ∧ Earlier flags' flags := by
  induction selection with
  | nil => exact ⟨[], .nil, fun i flag => by cases flag⟩
  | leaf name leaf holds tail ih =>
    obtain ⟨here, others⟩ := List.forall_mem_cons.mp kept
    obtain ⟨flags', rest, earlier⟩ := ih others
    rw [List.filter_cons, if_pos here]
    exact ⟨_, .leaf name leaf holds rest, earlier.both [true]⟩
  | skipped name leaf tail ih =>
    obtain ⟨flags', rest, earlier⟩ := ih kept
    rw [List.filter_cons]
    split_ifs
    · exact ⟨_, .skipped name leaf rest, earlier.both [false]⟩
    · exact ⟨_, rest, earlier.behind [false]⟩
  | @inside name desc inner _ _ _ _ _ _ nested selects tail _ ih =>
    obtain ⟨here, others⟩ := List.forall_mem_cons.mp kept
    obtain ⟨flags', rest, earlier⟩ := ih others
    rw [List.filter_cons, if_pos here]
    exact ⟨_, .inside name nested selects rest, earlier.both (false :: inner)⟩
  | @absent name desc _ _ _ _ tail ih =>
    obtain ⟨flags', rest, earlier⟩ := ih kept
    rw [List.filter_cons]
    split_ifs
    · exact ⟨_, .absent name rest, earlier.both (false :: List.replicate (countFields desc.fields) false)⟩
    · exact ⟨_, rest, earlier.behind (false :: List.replicate (countFields desc.fields) false)⟩

theorem distinctFields_filter (keep : FieldDesc → Bool) (distinct : DistinctFields fs) :
    DistinctFields (fs.filter keep) := by
  induction fs with
  | nil => exact trivial
  | cons f fs ih =>
    rw [List.filter_cons]
    split_ifs
    · exact ⟨fun g member => distinct.1 g (List.mem_filter.mp member).1, distinct.2.1, ih distinct.2.2⟩
    · exact ih distinct.2.2

theorem pathParts_value : pathParts "value" = ["value"] := by
  rw [pathParts, SplitOn.splitOn_dot]
  decide +kernel

theorem filterStructureDesc_value (desc : StructureDesc) :
    filterStructureDesc desc ["value"] = ⟨desc.structId, desc.fields.filter fun f => decide (f.name = "value")⟩ := by
  have tree : buildPathTree ["value"] = .node false [("value", .node true [])] := by
    rw [buildPathTree, List.foldl_cons, pathParts_value]
    rfl
  have pruned (fs : List FieldDesc) : pruneFields fs (.node false [("value", .node true [])])
      = fs.filter fun f => decide (f.name = "value") := by
    induction fs with
    | nil => rfl
    | cons f fs ih =>
      rw [pruneFields, ih]
      by_cases named : f.name = "value"
      · simp [PathNode.child, PathNode.children, PathNode.selectAll, named]
      · simp [PathNode.child, PathNode.children, named, Ne.symm named]
  rw [filterStructureDesc, tree, pruneStructure, pruned]
  rfl

theorem decodePutBody_first {body : List UInt8} {desc : StructureDesc} {n : Nat}
    (decoded : ((PvdDecoder.new isBe).decodeStructureWithBitset body desc (PvdDecoder.new isBe).fresh).1
      = .ok (.structure vs, n)) (filled : vs ≠ []) : Server.decodePutBody isBe body desc = some (.structure vs) := by
  rcases result : (PvdDecoder.new isBe).decodeStructureWithBitset body desc (PvdDecoder.new isBe).fresh with ⟨r, c⟩
  rw [result] at decoded
  obtain rfl : r = .ok (.structure vs, n) := decoded
  have present : Server.decodedIsEmpty (.structure vs) = false := by
    cases vs with
    | nil => exact absurd rfl filled
    | cons p ps => rfl
  have first : Server.orNothing ((PvdDecoder.new isBe).decodeStructureWithBitset body desc) (PvdDecoder.new isBe).fresh
      = (.ok (some (.structure vs)), c) := by
    rw [Server.orNothing, Fallible.bind_ok (Fallible.attempt_ok result)]
    dsimp only
    rw [if_neg (by simp [present])]
    rfl
  rw [Server.decodePutBody, Server.putStrategies, Server.orElse, Fallible.bind_ok first]
  rfl

theorem encodePutPayload_unknown {desc : StructureDesc}
    (unknown : ∃ e ∈ obj, ∀ f ∈ desc.fields, f.name ≠ e.1) :
    ∃ e, encodePutPayload ops isBe desc (.object obj) = .error e := by
  obtain ⟨e, member, other⟩ := unknown
  have found : (obj.find? fun e => !desc.fields.any fun f => f.name = e.1).isSome := by
    rw [List.find?_isSome]
    exact ⟨e, member, by simpa using other⟩
  obtain ⟨e, found⟩ := Option.isSome_iff_exists.mp found
  have checked : checkKeys desc.fields obj = .error s!"unknown field '{e.1}' in input" := by rw [checkKeys, found]
  refine ⟨s!"unknown field '{e.1}' in input", ?_⟩
  simp only [encodePutPayload, normalizeRoot, encodeStructurePartial, checked, bind, Except.bind]

theorem bitsAre_flag {bitset : List UInt8} {k i : Nat} {flag : Bool} (bits : BitsAre bitset k flags)
    (found : flags[i]? = some flag) : bitAt bitset (k + i) = flag := by
  induction flags generalizing k i with
  | nil => cases found
  | cons b flags ih =>
    cases i with
    | zero =>
      cases found
      exact bits.1
    | succ i => rw [← ih bits.2 found, Nat.add_right_comm, Nat.add_assoc]

theorem bitset_fits {bitset : List UInt8} (bits : BitsAre bitset 1 flags) (small : bitset.length < 2 ^ 32) :
    FitsSize flags := by
  intro i flag
  have set := bitsAre_flag bits flag
  have inside : (1 + i) / 8 < bitset.length := by
    by_contra beyond
    rw [bitAt, List.getElem?_eq_none (Nat.le_of_not_lt beyond)] at set
    cases set
  omega

theorem bitset_ne_nil {bitset : List UInt8} {k : Nat} (bits : BitsAre bitset k flags) (selects : flags.any id = true) :
    bitset ≠ [] := by
  rintro rfl
  have set := bits.any.trans selects
  simp [bitAt] at set

theorem Selection.round_trips {desc : StructureDesc}
    (selection : Selection isBe desc.fields flags vs bytes) (selects : vs ≠ []) (distinct : DistinctFields desc.fields)
    (fits : FitsSize flags) (converted : Converted widen vs obj) :
    ∃ payload, encodePutPayload ops isBe desc (.object obj) = .ok payload ∧
      ((PvdDecoder.new isBe).decodeStructureWithBitset payload desc (PvdDecoder.new isBe).fresh).1
        = .ok (.structure vs, payload.length) := by
  have accepts : Accepts ops isBe desc.fields obj vs flags := selection.accepts distinct converted fun _ _ => rfl
  obtain ⟨body, written⟩ := accepts.encoded ⟨[], 1, []⟩
  obtain ⟨sent, fields, encodes⟩ := encodePartialFields_encodes (fun f _ => encodesField f.fieldType) written
  obtain ⟨ws, sends, given⟩ := fieldsEncode_sent (fun f _ => sendsField f.fieldType) fields accepts.carried
  obtain rfl := accepts.gives ws given
  have filled := bitset_ne_nil encodes.bits.bitsAre.1 (sent_flags_any sends selects)
  have named := converted.names (fun name => ∃ f ∈ desc.fields, f.name = name) selection.names
  have accepted : encodePutPayload ops isBe desc (.object obj)
      = .ok (pushSize body.bitset.length isBe ++ body.bitset ++ body.data) := by
    simp only [encodePutPayload, normalizeRoot, encodeStructurePartial, checkKeys_of_named named, written, bind, Except.bind]
    rw [if_neg (by simpa using filled)]
    rfl
  obtain ⟨vs', ⟨root, normal, given'⟩, decoded⟩ := carried_round_trips accepted
    ⟨obj, rfl, accepts.carried, by rwa [accepts.flagged]⟩
  cases normal
  obtain rfl := accepts.gives vs' given'
  exact ⟨_, accepted, decoded⟩

/-- The same leaves can be selected in the other byte order. -/
theorem Selection.recoded (selection : Selection isBe fs flags vs bytes) (upstream : Bool) :
    ∃ bytes', Selection upstream fs flags vs bytes' := by
  induction selection with
  | nil => exact ⟨_, .nil⟩
  | leaf name leaf holds tail ih => exact ih.imp' _ fun _ rest => .leaf name leaf holds rest
  | skipped name leaf tail ih => exact ih.imp fun _ rest => .skipped name leaf rest
  | inside name nested selects tail inner ih =>
    obtain ⟨_, within⟩ := inner
    exact ih.imp' _ fun _ rest => .inside name within selects rest
  | absent name tail ih => exact ih.imp fun _ rest => .absent name rest

/-- A PUT that selects some leaves is decoded to these leaves. If they all are `value` or
below it, the encoding sent upstream, in its own byte order, decodes to the same leaves; otherwise
it is an error. -/
theorem put_forwards_selection {desc : StructureDesc} {bitset : List UInt8} (upstream : Bool)
    (distinct : DistinctFields desc.fields)
    (selection : Selection isBe desc.fields flags vs bytes) (selects : flags.any id = true)
    (bits : BitsAre bitset 1 flags) (whole : bitAt bitset 0 = false) (small : bitset.length < 2 ^ 32) :
    Server.decodePutBody isBe (pushSize bitset.length isBe ++ bitset ++ bytes) desc = some (.structure vs) ∧
      ∃ j, decodedToJson widen (.structure vs) = .ok j ∧
        ((∀ p ∈ vs, p.1 = "value") → ∃ payload,
          encodePutPayload ops upstream (filterStructureDesc desc ["value"]) j = .ok payload ∧
          ((PvdDecoder.new upstream).decodeStructureWithBitset payload (filterStructureDesc desc ["value"])
            (PvdDecoder.new upstream).fresh).1 = .ok (.structure vs, payload.length)) ∧
        ((∃ p ∈ vs, p.1 ≠ "value") →
          ∃ e, encodePutPayload ops upstream (filterStructureDesc desc ["value"]) j = .error e) := by
  have nonempty := selection.values_ne_nil selects
  have decoded := selection.sent.decodeStructureWithBitset bits whole small (bitset_ne_nil bits selects)
  obtain ⟨obj, converted⟩ := @Selection.converted widen isBe _ _ _ _ selection distinct
  refine ⟨decodePutBody_first decoded nonempty, .object obj, selection.object distinct converted, fun below => ?_, ?_⟩
  · rw [filterStructureDesc_value]
    obtain ⟨flags', kept, earlier⟩ := selection.filter (fun name => decide (name = "value")) (by simpa using below)
    have fits := earlier.fits (bitset_fits bits small)
    obtain ⟨_, sent⟩ := kept.recoded upstream
    exact Selection.round_trips sent nonempty (distinctFields_filter _ distinct) fits converted
  · rintro ⟨p, member, other⟩
    rw [filterStructureDesc_value]
    obtain ⟨e, among, named, -⟩ := forall₂_partner converted p member
    refine encodePutPayload_unknown ⟨e, among, fun f kept same => other ?_⟩
    rw [← named, ← same]
    simpa using (List.mem_filter.mp kept).2

end

end

def innerDesc : StructureDesc := ⟨none, [⟨"x", .scalar .int16⟩, ⟨"on", .scalar .boolean⟩]⟩

def pointDesc : StructureDesc := ⟨none, [⟨"value", .structure innerDesc⟩, ⟨"severity", .scalar .int32⟩]⟩

/-- A leaf below `value` is sent on, little-endian where it came big-endian; with another leaf
beside it nothing is. -/
theorem put_forwards_selection_point :
    let value : String × DecodedValue := ("value", .structure [("x", .int16 258)])
    Server.decodePutBody true [0x01, 0x04, 0x01, 0x02] pointDesc = some (.structure [value]) ∧
      (∃ j payload, decodedToJson (fun _ => ⟨0⟩) (.structure [value]) = .ok j ∧
        encodePutPayload noTexts false (filterStructureDesc pointDesc ["value"]) j = .ok payload ∧
        ((PvdDecoder.new false).decodeStructureWithBitset payload (filterStructureDesc pointDesc ["value"])
          (PvdDecoder.new false).fresh).1 = .ok (.structure [value], payload.length)) ∧
      ∃ j e, decodedToJson (fun _ => ⟨0⟩) (.structure [value, ("severity", .int32 1)]) = .ok j ∧
        encodePutPayload noTexts false (filterStructureDesc pointDesc ["value"]) j = .error e := by
  intro value
  have distinct : DistinctFields pointDesc.fields := by simp [pointDesc, innerDesc, DistinctFields, DistinctType]
  have inner : Selection true innerDesc.fields [true, false] [("x", .int16 258)] [0x01, 0x02] :=
    .leaf "x" rfl ⟨rfl, rfl⟩ (.skipped "on" rfl .nil)
  have below : Selection true pointDesc.fields [false, true, false, false] [value] [0x01, 0x02] :=
    @Selection.inside true "value" innerDesc _ _ _ _ _ _ _ inner rfl (.skipped "severity" rfl .nil)
  have beside : Selection true pointDesc.fields [false, true, false, true] [value, ("severity", .int32 1)]
      [0x01, 0x02, 0x00, 0x00, 0x00, 0x01] :=
    @Selection.inside true "value" innerDesc _ _ _ _ _ _ _ inner rfl (.leaf "severity" rfl ⟨rfl, rfl⟩ .nil)
  have bits : BitsAre [0x04] 1 [false, true, false, false] := by simp [BitsAre]; decide
  have moreBits : BitsAre [0x14] 1 [false, true, false, true] := by simp [BitsAre]; decide
  obtain ⟨decoded, j, converted, forwarded, -⟩ := @put_forwards_selection noTexts (fun _ => ⟨0⟩) true _ _ _ _ _ false
    distinct below rfl bits (by decide) (by decide)
  obtain ⟨-, j', converted', -, refused⟩ := @put_forwards_selection noTexts (fun _ => ⟨0⟩) true _ _ _ _ _ false
    distinct beside rfl moreBits (by decide) (by decide)
  obtain ⟨payload, sent⟩ := forwarded (by simp [value])
  obtain ⟨e, failed⟩ := refused ⟨("severity", .int32 1), by simp, by decide⟩
  exact ⟨decoded, ⟨j, payload, converted, sent⟩, j', e, converted', failed⟩

def bytesDesc : StructureDesc := ⟨none, [⟨"value", .scalarArray .int8⟩]⟩

/-- A PUT of 4000001 bytes for `value`, as far as the count. -/
def longBody (rest : List UInt8) : List UInt8 := 0x01 :: 0x02 :: 0xFE :: 0x01 :: 0x09 :: 0x3D :: 0x00 :: rest

section

variable (rest : List UInt8)

theorem longBody_selected :
    ∃ c, Server.orNothing ((PvdDecoder.new false).decodeStructureWithBitset (longBody rest) bytesDesc)
      (PvdDecoder.new false).fresh = (.ok none, c) := by
  unfold longBody
  exact ⟨_, rfl⟩

theorem longBody_shifted : ∃ c, Server.decodePutBodyShiftedBitset false (longBody rest) bytesDesc
    (PvdDecoder.new false).fresh = (.ok none, c) := by
  have shifted : Server.shiftBitsetLeft [0x02] 1 = [0x04, 0x00] := by decide +kernel
  have moved : Server.shiftedBody false (longBody rest) 1 1
      = 0x02 :: 0x04 :: 0x00 :: 0xFE :: 0x01 :: 0x09 :: 0x3D :: 0x00 :: rest := by
    unfold Server.shiftedBody longBody
    simp only [List.drop_succ_cons, List.drop_zero, List.take_succ_cons, List.take_zero, shifted]
    rfl
  have tried : Server.decodePutBodyShiftedBitset false (longBody rest) bytesDesc
      = Server.orNothing ((PvdDecoder.new false).decodeStructureWithBitset (Server.shiftedBody false (longBody rest) 1 1)
        bytesDesc) := rfl
  rw [tried, moved]
  exact ⟨_, rfl⟩

theorem longBody_behind : ∃ c, Server.decodeValueOnlyFromData false bytesDesc
    (0xFE :: 0x01 :: 0x09 :: 0x3D :: 0x00 :: rest) (PvdDecoder.new false).fresh = (.ok none, c) ∧
      c.depth = 0 ∧ c.budgetScope = 0 :=
  ⟨_, rfl, rfl, rfl⟩

/-- The size of the bitset and its byte read as an array of one element. -/
theorem longBody_whole (c : Cells) (depth : c.depth = 0) (scope : c.budgetScope = 0) :
    (Server.decodeValueOnlyFromData false bytesDesc (longBody rest) c).1
      = .ok (some (.structure [("value", .array [.int8 2])])) := by
  obtain ⟨registry, d, nodes, limit, s, resolved⟩ := c
  cases depth
  cases scope
  rfl

theorem longBody_valueOnly :
    (Server.decodePutBodyValueOnly false (longBody rest) bytesDesc (PvdDecoder.new false).fresh).1
      = .ok (some (.structure [("value", .array [.int8 2])])) := by
  obtain ⟨c, nothing, depth, scope⟩ := longBody_behind rest
  have size : decodeSizePrefixed (longBody rest) false = .ok (1, 1) := rfl
  have tried : Server.decodePutBodyValueOnly false (longBody rest) bytesDesc
      = Server.orElse (Server.decodeValueOnlyFromData false bytesDesc (0xFE :: 0x01 :: 0x09 :: 0x3D :: 0x00 :: rest))
        (Server.decodeValueOnlyFromData false bytesDesc (longBody rest)) := by
    rw [Server.decodePutBodyValueOnly, size]
    dsimp only
    rw [if_pos (by simp only [longBody, List.length_cons]; omega)]
    rfl
  rw [tried, Server.orElse, Fallible.bind_ok nothing]
  exact longBody_whole rest c depth scope

theorem longBody_decoded :
    Server.decodePutBody false (longBody rest) bytesDesc = some (.structure [("value", .array [.int8 2])]) := by
  obtain ⟨c, first⟩ := longBody_selected rest
  have status : Server.decodePutBodyBehindStatus false (longBody rest) bytesDesc c = (.ok none, c) := rfl
  obtain ⟨d, moved⟩ := longBody_shifted rest
  have shifted : Server.withNewDecoder false (Server.decodePutBodyShiftedBitset false (longBody rest) bytesDesc) c
      = (.ok none, c) := by
    rw [Server.withNewDecoder, moved]
  have alone : (Server.withNewDecoder false (Server.decodePutBodyValueOnly false (longBody rest) bytesDesc) c).1
      = .ok (some (.structure [("value", .array [.int8 2])])) := by
    rw [Server.withNewDecoder, longBody_valueOnly]
  rw [Server.decodePutBody, Server.putStrategies, Server.orElse, Fallible.bind_ok first]
  dsimp only
  rw [Server.orElse, Fallible.bind_ok status]
  dsimp only
  rw [Server.orElse, Fallible.bind_ok shifted]
  dsimp only
  rw [alone]

end

/-- The array is longer than the decoder accepts. The last fall-back takes the bitset for an
array of one element, and that is what goes upstream. -/
theorem long_array_forwarded_short :
    Server.decodePutBody false (pushSize 1 false ++ [0x02] ++
        pushDecodedValue false (.array (List.replicate 4000001 (.int8 7)))) bytesDesc
      = some (.structure [("value", .array [.int8 2])]) ∧
    decodedToJson (fun _ => ⟨0⟩) (.structure [("value", .array [.int8 2])])
      = .ok (.object [("value", .array [.number (.ofI64 2)])]) ∧
    encodePutPayload noTexts false (filterStructureDesc bytesDesc ["value"])
      (.object [("value", .array [.number (.ofI64 2)])]) = .ok [0x01, 0x02, 0x01, 0x02] := by
  refine ⟨?_, rfl, ?_⟩
  · rw [pushDecodedValue, List.length_replicate]
    generalize pushDecodedItems false _ = items
    exact longBody_decoded items
  · rw [filterStructureDesc_value]
    decide +kernel

end Spvirit.Gateway
