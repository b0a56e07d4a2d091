import Spvirit.Payload.View
import Spvirit.Server.Record

/-! From decoded values to the scalars and the scalar arrays of a record. -/

namespace Spvirit.Server

/-- The conversions between numbers of which one is a float. -/
structure FloatOps where
  /-- `f64_to_i64_checked` -/
  f64ToI64 : F64 → Option Int64
  /-- `f64_to_u64_checked` -/
  f64ToU64 : F64 → Option UInt64
  ofInt : Int → F64
  ofF32 : F32 → F64
  toF32 : F64 → F32

/-- The number in a signed type of the given bounds, as `try_from` has it. -/
def tryFrom {α : Type} (low high : Int) (make : Int → α) (v : Int) : Option α :=
  if low ≤ v ∧ v ≤ high then some (make v) else none

def i8TryFrom : Int → Option Int8 := tryFrom (-2 ^ 7) (2 ^ 7 - 1) Int8.ofInt
def i16TryFrom : Int → Option Int16 := tryFrom (-2 ^ 15) (2 ^ 15 - 1) Int16.ofInt
def i32TryFrom : Int → Option Int32 := tryFrom (-2 ^ 31) (2 ^ 31 - 1) Int32.ofInt
def i64TryFrom : Int → Option Int64 := tryFrom (-2 ^ 63) (2 ^ 63 - 1) Int64.ofInt
def u8TryFrom : Int → Option UInt8 := tryFrom 0 (2 ^ 8 - 1) fun v => UInt8.ofNat v.toNat
def u16TryFrom : Int → Option UInt16 := tryFrom 0 (2 ^ 16 - 1) fun v => UInt16.ofNat v.toNat
def u32TryFrom : Int → Option UInt32 := tryFrom 0 (2 ^ 32 - 1) fun v => UInt32.ofNat v.toNat
def u64TryFrom : Int → Option UInt64 := tryFrom 0 (2 ^ 64 - 1) fun v => UInt64.ofNat v.toNat

/-- The integers among the decoded values. A boolean counts as one or zero. -/
def decodedInt : DecodedValue → Option Int
  | .boolean v => some (if v then 1 else 0)
  | .int8 v => some v.toInt
  | .int16 v => some v.toInt
  | .int32 v => some v.toInt
  | .int64 v => some v.toInt
  | .uint8 v => some v.toNat
  | .uint16 v => some v.toNat
  | .uint32 v => some v.toNat
  | .uint64 v => some v.toNat
  | _ => none

variable (floats : FloatOps)

def decodedToBool : DecodedValue → Option Bool
  | .boolean v => some v
  | .float32 v => some (! v.eq ⟨0⟩)
  | .float64 v => some (! v.eq ⟨0⟩)
  | v => (decodedInt v).map fun i => i != 0

def decodedToI64 : DecodedValue → Option Int64
  | .float32 v => floats.f64ToI64 (floats.ofF32 v)
  | .float64 v => floats.f64ToI64 v
  | v => (decodedInt v).bind i64TryFrom

def decodedToI8 (v : DecodedValue) : Option Int8 := (decodedToI64 floats v).bind fun i => i8TryFrom i.toInt

def decodedToI16 (v : DecodedValue) : Option Int16 := (decodedToI64 floats v).bind fun i => i16TryFrom i.toInt

def decodedToI32 : DecodedValue → Option Int32
  | .float32 v => (floats.f64ToI64 (floats.ofF32 v)).bind fun i => i32TryFrom i.toInt
  | .float64 v => (floats.f64ToI64 v).bind fun i => i32TryFrom i.toInt
  | v => (decodedInt v).bind i32TryFrom

def decodedToU64 : DecodedValue → Option UInt64
  | .float32 v => floats.f64ToU64 (floats.ofF32 v)
  | .float64 v => floats.f64ToU64 v
  | v => (decodedInt v).bind u64TryFrom

def decodedToU8 (v : DecodedValue) : Option UInt8 := (decodedToU64 floats v).bind fun i => u8TryFrom i.toNat

def decodedToU16 (v : DecodedValue) : Option UInt16 := (decodedToU64 floats v).bind fun i => u16TryFrom i.toNat

def decodedToU32 (v : DecodedValue) : Option UInt32 := (decodedToU64 floats v).bind fun i => u32TryFrom i.toNat

def decodedToF64 : DecodedValue → Option F64
  | .float64 v => some v
  | .float32 v => some (floats.ofF32 v)
  | v => (decodedInt v).map floats.ofInt

def decodedToF32 (v : DecodedValue) : Option F32 := (decodedToF64 floats v).map floats.toF32

def decodedToString : DecodedValue → Option String
  | .string s => some s
  | _ => none

/-- Each element converts, or the array does not. -/
def convertAll {α : Type} (convert : DecodedValue → Option α) : List DecodedValue → Option (List α)
  | [] => some []
  | v :: rest => do
    let first ← convert v
    let others ← convertAll convert rest
    return first :: others

/-- The array in the element type of the one it is to replace. -/
def decodedToScalarArray (template : ScalarArrayValue) : DecodedValue → Option ScalarArrayValue
  | .array items =>
    match template with
    | .bool _ => (convertAll decodedToBool items).map .bool
    | .i8 _ => (convertAll (decodedToI8 floats) items).map .i8
    | .i16 _ => (convertAll (decodedToI16 floats) items).map .i16
    | .i32 _ => (convertAll (decodedToI32 floats) items).map .i32
    | .i64 _ => (convertAll (decodedToI64 floats) items).map .i64
    | .u8 _ => (convertAll (decodedToU8 floats) items).map .u8
    | .u16 _ => (convertAll (decodedToU16 floats) items).map .u16
    | .u32 _ => (convertAll (decodedToU32 floats) items).map .u32
    | .u64 _ => (convertAll (decodedToU64 floats) items).map .u64
    | .f32 _ => (convertAll (decodedToF32 floats) items).map .f32
    | .f64 _ => (convertAll (decodedToF64 floats) items).map .f64
    | .str _ => (convertAll decodedToString items).map .str
  | _ => none

theorem convertAll_length {α : Type} {convert : DecodedValue → Option α} {items : List DecodedValue} {out : List α}
    (converted : convertAll convert items = some out) : out.length = items.length := by
  induction items generalizing out with
  | nil =>
    cases converted
    rfl
  | cons v rest ih =>
    simp only [convertAll, Option.bind_eq_bind, Option.bind_eq_some_iff, Option.pure_def, Option.some.injEq] at converted
    obtain ⟨first, _, others, tail, rfl⟩ := converted
    rw [List.length_cons, List.length_cons, ih tail]

theorem decodedToScalarArray_spec {template next : ScalarArrayValue} {v : DecodedValue}
    (converted : decodedToScalarArray floats template v = some next) :
    ∃ items, v = .array items ∧ scalarArrayKind next = scalarArrayKind template ∧
      next.len = items.length := by
  unfold decodedToScalarArray at converted
  split at converted
  · rename_i items
    refine ⟨items, rfl, ?_⟩
    cases template <;> dsimp only at converted <;>
      obtain ⟨out, all, rfl⟩ := Option.map_eq_some_iff.mp converted <;>
      exact ⟨rfl, by simpa [ScalarArrayValue.len, ScalarArrayValue.items] using convertAll_length all⟩
  · cases converted

end Spvirit.Server
