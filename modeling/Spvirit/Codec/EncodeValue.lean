import Spvirit.Codec.Prefixed
import Spvirit.Codec.Types

/-! Decoded values written back to the wire, and their comparison. The bytes of a value carry no type. -/

namespace Spvirit

open ByteOrder

section

variable (isBe : Bool)

mutual

def pushDecodedValue : DecodedValue → List UInt8
  | .null => []
  | .boolean v => [if v then 1 else 0]
  | .int8 v => [v.toUInt8]
  | .int16 v => toBytes isBe 2 v.toUInt16.toNat
  | .int32 v => toBytes isBe 4 v.toUInt32.toNat
  | .int64 v => toBytes isBe 8 v.toUInt64.toNat
  | .uint8 v => [v]
  | .uint16 v => toBytes isBe 2 v.toNat
  | .uint32 v => toBytes isBe 4 v.toNat
  | .uint64 v => toBytes isBe 8 v.toNat
  | .float32 v => toBytes isBe 4 v.bits.toNat
  | .float64 v => toBytes isBe 8 v.bits.toNat
  | .string s => pushString s isBe
  | .array items => pushSize items.length isBe ++ pushDecodedItems items
  | .structure fields => pushDecodedFields fields
  | .raw bytes => bytes

def pushDecodedItems : List DecodedValue → List UInt8
  | [] => []
  | v :: vs => pushDecodedValue v ++ pushDecodedItems vs

def pushDecodedFields : List (String × DecodedValue) → List UInt8
  | [] => []
  | f :: fs => pushDecodedValue f.2 ++ pushDecodedFields fs

end

@[simp] theorem pushDecodedItems_eq (items : List DecodedValue) :
    pushDecodedItems isBe items = items.flatMap (pushDecodedValue isBe) := by
  induction items with
  | nil => rfl
  | cons v vs ih => rw [pushDecodedItems, ih, List.flatMap_cons]

@[simp] theorem pushDecodedFields_eq (fields : List (String × DecodedValue)) :
    pushDecodedFields isBe fields = fields.flatMap fun f => pushDecodedValue isBe f.2 := by
  induction fields with
  | nil => rfl
  | cons f fs ih => rw [pushDecodedFields, ih, List.flatMap_cons]

end

/-- All bits of the exponent set and some bit of the fraction. -/
def F32.isNan (x : F32) : Bool := 0x7F800000 < x.bits &&& 0x7FFFFFFF

/-- The comparison of floating-point numbers: nothing equals a NaN, and the two zeros are equal. -/
def F32.eq (x y : F32) : Bool :=
  !x.isNan && !y.isNan && (x.bits = y.bits || (x.bits ||| y.bits) &&& 0x7FFFFFFF = 0)

@[inherit_doc F32.isNan]
def F64.isNan (x : F64) : Bool := 0x7FF0000000000000 < x.bits &&& 0x7FFFFFFFFFFFFFFF

@[inherit_doc F32.eq]
def F64.eq (x y : F64) : Bool :=
  !x.isNan && !y.isNan && (x.bits = y.bits || (x.bits ||| y.bits) &&& 0x7FFFFFFFFFFFFFFF = 0)

def F32.same (x y : F32) : Bool := x.eq y || x.isNan && y.isNan
def F64.same (x y : F64) : Bool := x.eq y || x.isNan && y.isNan

mutual

/-- Equality of values with NaN equal to NaN. -/
def decodedValuesEqual : DecodedValue → DecodedValue → Bool
  | .null, .null => true
  | .boolean x, .boolean y => x = y
  | .int8 x, .int8 y => x = y
  | .int16 x, .int16 y => x = y
  | .int32 x, .int32 y => x = y
  | .int64 x, .int64 y => x = y
  | .uint8 x, .uint8 y => x = y
  | .uint16 x, .uint16 y => x = y
  | .uint32 x, .uint32 y => x = y
  | .uint64 x, .uint64 y => x = y
  | .float32 x, .float32 y => x.same y
  | .float64 x, .float64 y => x.same y
  | .string x, .string y => x = y
  | .raw x, .raw y => x = y
  | .array x, .array y => decodedItemsEqual x y
  | .structure x, .structure y => decodedFieldsEqual x y
  | _, _ => false

def decodedItemsEqual : List DecodedValue → List DecodedValue → Bool
  | [], [] => true
  | x :: xs, y :: ys => decodedValuesEqual x y && decodedItemsEqual xs ys
  | _, _ => false

def decodedFieldsEqual : List (String × DecodedValue) → List (String × DecodedValue) → Bool
  | [], [] => true
  | x :: xs, y :: ys => x.1 = y.1 && decodedValuesEqual x.2 y.2 && decodedFieldsEqual xs ys
  | _, _ => false

end

end Spvirit
