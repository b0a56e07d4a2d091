import Spvirit.Codec.Error

/-! Type descriptions and decoded values of pvData. -/

namespace Spvirit

inductive TypeCode where
  | null
  | boolean
  | int8
  | int16
  | int32
  | int64
  | uint8
  | uint16
  | uint32
  | uint64
  | float32
  | float64
  | string
  | variant
  deriving DecidableEq, Repr

namespace TypeCode

def toByte : TypeCode → UInt8
  | .null => 0xFF
  | .boolean => 0x00
  | .int8 => 0x20
  | .int16 => 0x21
  | .int32 => 0x22
  | .int64 => 0x23
  | .uint8 => 0x24
  | .uint16 => 0x25
  | .uint32 => 0x26
  | .uint64 => 0x27
  | .float32 => 0x42
  | .float64 => 0x43
  | .string => 0x60
  | .variant => 0xFE

/-- The scalar-array mode bits of the byte do not matter. -/
def fromByte (b : UInt8) : Option TypeCode :=
  match b &&& 0xE7 with
  | 0x00 => some .boolean
  | 0x20 => some .int8
  | 0x21 => some .int16
  | 0x22 => some .int32
  | 0x23 => some .int64
  | 0x24 => some .uint8
  | 0x25 => some .uint16
  | 0x26 => some .uint32
  | 0x27 => some .uint64
  | 0x42 => some .float32
  | 0x43 => some .float64
  | 0x60 => some .string
  | _ => none

def size : TypeCode → Option Nat
  | .boolean | .int8 | .uint8 => some 1
  | .int16 | .uint16 => some 2
  | .int32 | .uint32 | .float32 => some 4
  | .int64 | .uint64 | .float64 => some 8
  | .string | .null | .variant => none

end TypeCode

structure FieldDescOf (τ : Type) where
  name : String
  fieldType : τ
  deriving DecidableEq, Repr

structure StructureDescOf (τ : Type) where
  structId : Option String
  fields : List (FieldDescOf τ)
  deriving DecidableEq, Repr

inductive FieldType where
  | scalar (tc : TypeCode)
  | scalarArray (tc : TypeCode)
  | string
  | stringArray
  | structure (desc : StructureDescOf FieldType)
  | structureArray (desc : StructureDescOf FieldType)
  | union (fields : List (FieldDescOf FieldType))
  | unionArray (fields : List (FieldDescOf FieldType))
  | variant
  | variantArray
  | boundedString (bound : UInt32)

abbrev FieldDesc := FieldDescOf FieldType
abbrev StructureDesc := StructureDescOf FieldType

@[elab_as_elim, induction_eliminator]
theorem FieldType.induction {P : FieldType → Prop} (scalar : ∀ tc, P (.scalar tc))
    (scalarArray : ∀ tc, P (.scalarArray tc)) (string : P .string) (stringArray : P .stringArray)
    (struct : ∀ desc : StructureDesc, (∀ f ∈ desc.fields, P f.fieldType) → P (.structure desc))
    (structArray : ∀ desc : StructureDesc, (∀ f ∈ desc.fields, P f.fieldType) → P (.structureArray desc))
    (union : ∀ fields : List FieldDesc, (∀ f ∈ fields, P f.fieldType) → P (.union fields))
    (unionArray : ∀ fields : List FieldDesc, (∀ f ∈ fields, P f.fieldType) → P (.unionArray fields))
    (variant : P .variant) (variantArray : P .variantArray) (boundedString : ∀ bound, P (.boundedString bound))
    (ft : FieldType) : P ft :=
  @FieldType.rec P (fun desc => ∀ f ∈ desc.fields, P f.fieldType) (fun fields => ∀ f ∈ fields, P f.fieldType)
    (fun f => P f.fieldType) scalar scalarArray string stringArray struct structArray union
    unionArray variant variantArray boundedString (fun _ _ fields => fields)
    (by simp) (fun _ _ head tail => by simpa using ⟨head, tail⟩) (fun _ _ type => type) ft

/-- A floating-point number by its bit pattern. -/
structure F32 where
  bits : UInt32
  deriving DecidableEq, Repr

@[inherit_doc F32]
structure F64 where
  bits : UInt64
  deriving DecidableEq, Repr

inductive DecodedValue where
  | null
  | boolean (v : Bool)
  | int8 (v : Int8)
  | int16 (v : Int16)
  | int32 (v : Int32)
  | int64 (v : Int64)
  | uint8 (v : UInt8)
  | uint16 (v : UInt16)
  | uint32 (v : UInt32)
  | uint64 (v : UInt64)
  | float32 (v : F32)
  | float64 (v : F64)
  | string (s : String)
  | array (items : List DecodedValue)
  | structure (fields : List (String × DecodedValue))
  | raw (bytes : List UInt8)

mutual

/-- The height of a type tree in levels of nesting: a leaf is 1. -/
def typeHeight : FieldType → Nat
  | .structure desc | .structureArray desc => 1 + fieldsHeight desc.fields
  | .union fields | .unionArray fields => 1 + fieldsHeight fields
  | _ => 1

def fieldsHeight : List (FieldDescOf FieldType) → Nat
  | [] => 0
  | f :: fs => max (typeHeight f.fieldType) (fieldsHeight fs)

end

theorem typeHeight_pos (ft : FieldType) : 0 < typeHeight ft := by
  cases ft <;> simp [typeHeight]

mutual

/-- The number of structures, unions and leaves of a type tree. -/
def typeNodes : FieldType → Nat
  | .structure desc | .structureArray desc => 1 + fieldsNodes desc.fields
  | .union fields | .unionArray fields => 1 + fieldsNodes fields
  | _ => 1

def fieldsNodes : List (FieldDescOf FieldType) → Nat
  | [] => 0
  | f :: fs => typeNodes f.fieldType + fieldsNodes fs

end

end Spvirit
