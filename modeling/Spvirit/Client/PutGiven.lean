import Spvirit.Client.PutEncode
import Spvirit.Codec.Sent

/-! What a JSON input asks to be written, and when its encoding carries that. -/

namespace Spvirit

def DecodedValue.integer : DecodedValue → Option Int
  | .int8 v => some v.toInt
  | .int16 v => some v.toInt
  | .int32 v => some v.toInt
  | .int64 v => some v.toInt
  | .uint8 v => some v.toNat
  | .uint16 v => some v.toNat
  | .uint32 v => some v.toNat
  | .uint64 v => some v.toNat
  | _ => none

namespace Client

open PvdDecoder

/-- The scalar of that type which the input gives: a boolean for a boolean, a number
for an integer. -/
def GivenScalar (tc : TypeCode) (j : Json) (v : DecodedValue) : Prop :=
  match j with
  | .bool b => tc = .boolean ∧ v = .boolean b
  | .number n => v.scalarCode = some tc ∧ ∃ i, v.integer = some i ∧ n.integer = some i
  | _ => False

def GivenString (j : Json) (v : DecodedValue) : Prop := ∃ s, j = .string s ∧ v = .string s

mutual

def Given : FieldType → Json → DecodedValue → Prop
  | .scalar tc, j, v => GivenScalar tc j v
  | .string, j, v => GivenString j v
  | .boundedString _, j, v => GivenString j v
  | .scalarArray tc, j, v => ∃ js vs, j = .array js ∧ v = .array vs ∧ List.Forall₂ (GivenScalar tc) js vs
  | .stringArray, j, v => ∃ js vs, j = .array js ∧ v = .array vs ∧ List.Forall₂ GivenString js vs
  | .structure desc, j, v => ∃ obj vs, j = .object obj ∧ v = .structure vs ∧ GivenFields desc.fields obj vs
  | .structureArray desc, j, v => ∃ js vs, j = .array js ∧ v = .array vs ∧
      List.Forall₂ (fun k w => ∃ obj ws, k = .object obj ∧ w = .structure ws ∧ GivenFields desc.fields obj ws) js vs
  | .union fields, j, v => ∃ name k w, j = .object [(name, k)] ∧ v = .structure [(name, w)] ∧ GivenMember fields name k w
  | .unionArray fields, j, v => ∃ js vs, j = .array js ∧ v = .array vs ∧
      List.Forall₂ (fun k w => ∃ name l x, k = .object [(name, l)] ∧ w = .structure [(name, x)] ∧
        GivenMember fields name l x) js vs
  | .variant, _, _ => False
  | .variantArray, _, _ => False

def GivenFields : List (FieldDescOf FieldType) → List (String × Json) → List (String × DecodedValue) → Prop
  | [], _, vs => vs = []
  | f :: fs, values, vs =>
    match Json.get values f.name with
    | none => GivenFields fs values vs
    | some j => ∃ v rest, vs = (f.name, v) :: rest ∧ Given f.fieldType j v ∧ GivenFields fs values rest

def GivenMember : List (FieldDescOf FieldType) → String → Json → DecodedValue → Prop
  | [], _, _, _ => False
  | f :: fs, name, j, v => if f.name = name then Given f.fieldType j v else GivenMember fs name j v

end

section

variable (limits : DecodeLimits)

mutual

/-- The encoding carries the given value, with so many levels of unions below it: numbers
are integers of their type, sizes stay within the decoder's limits, and no array of
structures has an element. -/
def Carried : FieldType → Nat → Json → Prop
  | .scalar tc, _, j => ∃ v, GivenScalar tc j v
  | .string, _, j => ∃ s, j = .string s ∧ Short s
  | .boundedString _, _, j => ∃ s, j = .string s ∧ Short s
  | .scalarArray tc, _, j => ∃ js, j = .array js ∧ js.length ≤ limits.maxScalarArray ∧ ∀ k ∈ js, ∃ v, GivenScalar tc k v
  | .stringArray, _, j => ∃ js, j = .array js ∧ js.length ≤ limits.maxStringArray ∧ ∀ k ∈ js, ∃ s, k = .string s ∧ Short s
  | .structureArray _, _, j => j = .array []
  | .union fields, levels, j => ∃ name k, j = .object [(name, k)] ∧ CarriedMember fields 0 levels name k
  | .unionArray fields, levels, j => ∃ js, j = .array js ∧ js.length ≤ limits.maxUnionArray ∧
      ∀ u ∈ js, ∃ name k, u = .object [(name, k)] ∧ CarriedMember fields 0 levels name k
  | .structure _, _, _ => False
  | .variant, _, _ => False
  | .variantArray, _, _ => False

def CarriedMember : List (FieldDescOf FieldType) → Nat → Nat → String → Json → Prop
  | [], _, _, _, _ => False
  | f :: fs, index, levels, name, j =>
    if f.name = name then index < 2 ^ 32 ∧ ∃ below, levels = below + 1 ∧ Carried f.fieldType below j
    else CarriedMember fs (index + 1) levels name j

end

mutual

def CarriedFields : List (FieldDescOf FieldType) → List (String × Json) → Prop
  | [], _ => True
  | f :: fs, values => CarriedField f.fieldType (Json.get values f.name) ∧ CarriedFields fs values

def CarriedField : FieldType → Option Json → Prop
  | .structure nested, j => ∀ k, j = some k → ∃ obj, k = .object obj ∧ CarriedFields nested.fields obj
  | ft, j => ∀ k, j = some k → Carried limits ft (limits.maxDepth - 1) k

end

end

section

variable {ops : JsonOps} {isBe : Bool} {name : String}

theorem jsonToInt_integer {n : JsonNumber} {w : Int64} {i : Int} (integer : n.integer = some i)
    (converted : jsonToInt ops (.number n) name = .ok w) (low : -2 ^ 63 ≤ i) (high : i < 2 ^ 63) : w.toInt = i := by
  cases n with
  | posInt u =>
    cases integer
    have small : u.toNat < 2 ^ 63 := by omega
    simp only [jsonToInt, JsonNumber.asI64, if_pos small, Except.ok.injEq] at converted
    subst converted
    exact BitVec.toInt_eq_toNat_of_lt (by have : u.toInt64.toBitVec.toNat = u.toNat := rfl; omega)
  | negInt m =>
    cases integer
    simp only [jsonToInt, JsonNumber.asI64, Except.ok.injEq] at converted
    rw [converted]
  | float x finite =>
    simp only [JsonNumber.integer] at integer
    split_ifs at integer with whole
    cases integer
    simp only [jsonToInt, JsonNumber.asI64, JsonNumber.asU64] at converted
    split_ifs at converted
    cases converted
    have kept : max (-2 ^ 63) (min x.trunc (2 ^ 63 - 1)) = x.trunc := by omega
    rw [F64.asI64, kept, Int64.toInt_ofInt_of_le low high]

theorem jsonToUint_integer {n : JsonNumber} {w : UInt64} {i : Nat} (integer : n.integer = some (i : Int))
    (converted : jsonToUint ops (.number n) name = .ok w) (high : i < 2 ^ 64) : w.toNat = i := by
  cases n with
  | posInt u =>
    simp only [JsonNumber.integer, Option.some.injEq] at integer
    simp only [jsonToUint, JsonNumber.asU64, Except.ok.injEq] at converted
    subst converted
    omega
  | negInt m =>
    simp only [JsonNumber.integer, Option.some.injEq] at integer
    simp only [jsonToUint, JsonNumber.asI64, JsonNumber.asU64] at converted
    split_ifs at converted with negative
    cases converted
    have zero : (0 : Int64) ≤ m := Int64.not_lt.mp negative
    rw [Int64.toNat_toUInt64_of_le zero, Int64.toNatClampNeg, integer, Int.toNat_natCast]
  | float x finite =>
    simp only [JsonNumber.integer] at integer
    split_ifs at integer with whole
    simp only [Option.some.injEq] at integer
    simp only [jsonToUint, JsonNumber.asI64, JsonNumber.asU64] at converted
    split_ifs at converted
    cases converted
    rw [F64.asU64, integer, Int.toNat_natCast, UInt64.toNat_ofNat']
    have kept : min i (2 ^ 64 - 1) = i := by omega
    rw [kept, Nat.mod_eq_of_lt high]

theorem encodeSigned_number {n : JsonNumber} {min max : Int64} {push : Int64 → List UInt8} {bytes : List UInt8} {i : Int}
    (encoded : encodeSigned ops (.number n) name min max push = .ok bytes) (integer : n.integer = some i)
    (low : -2 ^ 63 ≤ i) (high : i < 2 ^ 63) : ∃ w : Int64, w.toInt = i ∧ bytes = push w := by
  unfold encodeSigned at encoded
  cases converted : jsonToInt ops (.number n) name with
  | error e => simp [converted, bind, Except.bind] at encoded
  | ok w =>
    refine ⟨w, jsonToInt_integer integer converted low high, ?_⟩
    cases range : ensureRangeI64 w min max name with
    | error e => simp [converted, range, bind, Except.bind] at encoded
    | ok _ =>
      simp only [converted, range, bind, Except.bind, pure, Except.pure, Except.ok.injEq] at encoded
      exact encoded.symm

theorem encodeUnsigned_number {n : JsonNumber} {min max : UInt64} {push : UInt64 → List UInt8} {bytes : List UInt8}
    {i : Nat} (encoded : encodeUnsigned ops (.number n) name min max push = .ok bytes)
    (integer : n.integer = some (i : Int)) (high : i < 2 ^ 64) : ∃ w : UInt64, w.toNat = i ∧ bytes = push w := by
  unfold encodeUnsigned at encoded
  cases converted : jsonToUint ops (.number n) name with
  | error e => simp [converted, bind, Except.bind] at encoded
  | ok w =>
    refine ⟨w, jsonToUint_integer integer converted high, ?_⟩
    cases range : ensureRangeU64 w min max name with
    | error e => simp [converted, range, bind, Except.bind] at encoded
    | ok _ =>
      simp only [converted, range, bind, Except.bind, pure, Except.pure, Except.ok.injEq] at encoded
      exact encoded.symm

theorem encodeScalarValue_given {tc : TypeCode} {j : Json} {v : DecodedValue} {bytes : List UInt8}
    (encoded : encodeScalarValue ops isBe tc j name = .ok bytes) (given : GivenScalar tc j v) :
    v.scalarCode = some tc ∧ bytes = pushDecodedValue isBe v := by
  cases j with
  | bool b =>
    obtain ⟨rfl, rfl⟩ := given
    simp only [encodeScalarValue, jsonToBool, bind, Except.bind, pure, Except.pure, Except.ok.injEq] at encoded
    exact ⟨rfl, encoded.symm⟩
  | number n =>
    obtain ⟨code, i, value, integer⟩ := given
    refine ⟨code, ?_⟩
    cases v <;> simp only [DecodedValue.scalarCode, Option.some.injEq, reduceCtorEq] at code <;>
      simp only [DecodedValue.integer, Option.some.injEq, reduceCtorEq] at value <;> subst code value
    case int8 v =>
      have low := v.le_toInt
      have high := v.toInt_lt
      obtain ⟨w, same, rfl⟩ := encodeSigned_number encoded integer (by omega) (by omega)
      have narrowed : w.toInt8 = v := by
        rw [← Int8.toInt_inj, Int64.toInt_toInt8, same, Int.bmod_eq_of_le] <;> omega
      rw [narrowed]
      rfl
    case int16 v =>
      have low := v.le_toInt
      have high := v.toInt_lt
      obtain ⟨w, same, rfl⟩ := encodeSigned_number encoded integer (by omega) (by omega)
      have narrowed : w.toInt16 = v := by
        rw [← Int16.toInt_inj, Int64.toInt_toInt16, same, Int.bmod_eq_of_le] <;> omega
      rw [narrowed]
      rfl
    case int32 v =>
      have low := v.le_toInt
      have high := v.toInt_lt
      obtain ⟨w, same, rfl⟩ := encodeSigned_number encoded integer (by omega) (by omega)
      have narrowed : w.toInt32 = v := by
        rw [← Int32.toInt_inj, Int64.toInt_toInt32, same, Int.bmod_eq_of_le] <;> omega
      rw [narrowed]
      rfl
    case int64 v =>
      have low := v.le_toInt
      have high := v.toInt_lt
      cases converted : jsonToInt ops (.number n) name with
      | error e => simp [encodeScalarValue, converted, bind, Except.bind] at encoded
      | ok w =>
        have same := jsonToInt_integer integer converted (by omega) (by omega)
        simp only [encodeScalarValue, converted, bind, Except.bind, pure, Except.pure, Except.ok.injEq] at encoded
        rw [← encoded, Int64.toInt_inj.mp same]
        rfl
    case uint8 v =>
      have high := v.toNat_lt
      obtain ⟨w, same, rfl⟩ := encodeUnsigned_number encoded integer (by omega)
      have narrowed : w.toUInt8 = v := by
        rw [← UInt8.toNat_inj, UInt64.toNat_toUInt8, same, Nat.mod_eq_of_lt high]
      rw [narrowed]
      rfl
    case uint16 v =>
      have high := v.toNat_lt
      obtain ⟨w, same, rfl⟩ := encodeUnsigned_number encoded integer (by omega)
      have narrowed : w.toUInt16 = v := by
        rw [← UInt16.toNat_inj, UInt64.toNat_toUInt16, same, Nat.mod_eq_of_lt high]
      rw [narrowed]
      rfl
    case uint32 v =>
      have high := v.toNat_lt
      obtain ⟨w, same, rfl⟩ := encodeUnsigned_number encoded integer (by omega)
      have narrowed : w.toUInt32 = v := by
        rw [← UInt32.toNat_inj, UInt64.toNat_toUInt32, same, Nat.mod_eq_of_lt high]
      rw [narrowed]
      rfl
    case uint64 v =>
      cases converted : jsonToUint ops (.number n) name with
      | error e => simp [encodeScalarValue, converted, bind, Except.bind] at encoded
      | ok w =>
        have same := jsonToUint_integer integer converted v.toNat_lt
        simp only [encodeScalarValue, converted, bind, Except.bind, pure, Except.pure, Except.ok.injEq] at encoded
        rw [← encoded, UInt64.toNat_inj.mp same]
        rfl
  | null | string _ => exact given.elim
  | array _ | object _ => exact given.elim

end

end Client

end Spvirit
