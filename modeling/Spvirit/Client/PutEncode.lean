import Spvirit.Client.Json
import Spvirit.Codec.EncodeBits

/-! The payload of a client's PUT from JSON: a bitset of the fields named in the input,
and their values. -/

namespace Spvirit.Client

open ByteOrder

section

variable (ops : JsonOps)

def jsonToInt (val : Json) (fieldName : String) : Except String Int64 :=
  match val with
  | .number n =>
    match n.asI64, n.asU64, n with
    | some i, _, _ => .ok i
    | none, some u, _ => if u.toNat < 2 ^ 63 then .ok u.toInt64 else .error s!"field '{fieldName}' out of range"
    | none, none, .float x _ =>
      if x.fractExceedsEpsilon then .error s!"field '{fieldName}' expects integer, got {ops.showF64 x}"
      else .ok x.asI64
    | none, none, _ => .error s!"field '{fieldName}' expects integer"
  | .string s => (ops.parseI64 s).elim (.error s!"field '{fieldName}' expects integer") .ok
  | _ => .error s!"field '{fieldName}' expects integer"

def jsonToUint (val : Json) (fieldName : String) : Except String UInt64 :=
  match val with
  | .number n =>
    match n.asU64, n.asI64, n with
    | some u, _, _ => .ok u
    | none, some i, _ =>
      if i < 0 then .error s!"field '{fieldName}' expects unsigned integer" else .ok i.toUInt64
    | none, none, .float x _ =>
      if x.fractExceedsEpsilon || x.negative then .error s!"field '{fieldName}' expects unsigned integer"
      else .ok x.asU64
    | none, none, _ => .error s!"field '{fieldName}' expects unsigned integer"
  | .string s => (ops.parseU64 s).elim (.error s!"field '{fieldName}' expects unsigned integer") .ok
  | _ => .error s!"field '{fieldName}' expects unsigned integer"

def jsonToFloat (val : Json) (fieldName : String) : Except String F64 :=
  match val with
  | .number n => .ok (ops.asF64 n)
  | .string s => (ops.parseF64 s).elim (.error s!"field '{fieldName}' expects float") .ok
  | _ => .error s!"field '{fieldName}' expects float"

def jsonToBool (val : Json) (fieldName : String) : Except String Bool :=
  match val with
  | .bool b => .ok b
  | .number n => n.asI64.elim (.error s!"field '{fieldName}' expects boolean") fun v => .ok (v ≠ 0)
  | _ => .error s!"field '{fieldName}' expects boolean"

def ensureRangeI64 (value min max : Int64) (fieldName : String) : Except String Unit :=
  if value < min ∨ max < value then .error s!"field '{fieldName}' out of range" else .ok ()

def ensureRangeU64 (value min max : UInt64) (fieldName : String) : Except String Unit :=
  if value < min ∨ max < value then .error s!"field '{fieldName}' out of range" else .ok ()

variable (isBe : Bool)

def encodeStringValue (val : Json) (fieldName : String) : Except String (List UInt8) :=
  match val with
  | .string s => .ok (pushString s isBe)
  | _ => .error s!"field '{fieldName}' expects string"

/-- A signed integer in its range, in the width of its type. -/
def encodeSigned (val : Json) (fieldName : String) (min max : Int64) (push : Int64 → List UInt8) :
    Except String (List UInt8) := do
  let v ← jsonToInt ops val fieldName
  ensureRangeI64 v min max fieldName
  pure (push v)

def encodeUnsigned (val : Json) (fieldName : String) (min max : UInt64) (push : UInt64 → List UInt8) :
    Except String (List UInt8) := do
  let v ← jsonToUint ops val fieldName
  ensureRangeU64 v min max fieldName
  pure (push v)

def encodeScalarValue (tc : TypeCode) (val : Json) (fieldName : String) : Except String (List UInt8) :=
  match tc with
  | .boolean => do
    let b ← jsonToBool val fieldName
    pure [if b then 1 else 0]
  | .int8 => encodeSigned ops val fieldName (-128) 127 fun v => [v.toInt8.toUInt8]
  | .int16 => encodeSigned ops val fieldName (-32768) 32767 fun v => toBytes isBe 2 v.toInt16.toUInt16.toNat
  | .int32 =>
    encodeSigned ops val fieldName (-2147483648) 2147483647 fun v => toBytes isBe 4 v.toInt32.toUInt32.toNat
  | .int64 => do
    let v ← jsonToInt ops val fieldName
    pure (toBytes isBe 8 v.toUInt64.toNat)
  | .uint8 => encodeUnsigned ops val fieldName 0 255 fun v => [v.toUInt8]
  | .uint16 => encodeUnsigned ops val fieldName 0 65535 fun v => toBytes isBe 2 v.toUInt16.toNat
  | .uint32 => encodeUnsigned ops val fieldName 0 4294967295 fun v => toBytes isBe 4 v.toUInt32.toNat
  | .uint64 => do
    let v ← jsonToUint ops val fieldName
    pure (toBytes isBe 8 v.toNat)
  | .float32 => do
    let v ← jsonToFloat ops val fieldName
    pure (toBytes isBe 4 (ops.narrow v).bits.toNat)
  | .float64 => do
    let v ← jsonToFloat ops val fieldName
    pure (toBytes isBe 8 v.bits.toNat)
  | .string => encodeStringValue isBe val fieldName
  | .null | .variant => .error s!"field '{fieldName}' uses unsupported scalar type"

/-- The elements one after the other. -/
def encodeItems (item : Json → Except String (List UInt8)) : List Json → Except String (List UInt8)
  | [] => .ok []
  | j :: js => do
    let head ← item j
    let tail ← encodeItems item js
    pure (head ++ tail)

/-- The count of an array and its elements. -/
def encodeArray (expects : String) (item : Json → Except String (List UInt8)) (val : Json) (fieldName : String) :
    Except String (List UInt8) :=
  match val with
  | .array items => do
    let bytes ← encodeItems item items
    pure (pushSize items.length isBe ++ bytes)
  | _ => .error s!"field '{fieldName}' {expects}"

def encodeScalarArray (tc : TypeCode) (val : Json) (fieldName : String) : Except String (List UInt8) :=
  encodeArray isBe "expects array" (fun item => encodeScalarValue ops isBe tc item fieldName) val fieldName

def encodeStringArray (val : Json) (fieldName : String) : Except String (List UInt8) :=
  encodeArray isBe "expects array" (fun item => encodeStringValue isBe item fieldName) val fieldName

/-- The elements stand one after the other, with nothing between them. -/
def encodeStructureArray (full : List (String × Json) → Except String (List UInt8)) (val : Json) (fieldName : String) :
    Except String (List UInt8) :=
  encodeArray isBe "expects array"
    (fun item => match item with
      | .object obj => full obj
      | _ => .error s!"field '{fieldName}' expects array of objects") val fieldName

/-- The index of the selected member and its value. -/
def encodeUnion (member : String → Json → Option (Except String (List UInt8))) (val : Json) (fieldName : String) :
    Except String (List UInt8) :=
  match val with
  | .object [(selectedName, selectedVal)] =>
    (member selectedName selectedVal).getD (.error s!"field '{fieldName}' union member '{selectedName}' is unknown")
  | .object _ => .error s!"field '{fieldName}' union expects exactly one selected member"
  | _ => .error s!"field '{fieldName}' expects object for union"

def isString : Json → Bool
  | .string _ => true
  | _ => false

/-- The text of a member of an object that is sent as a variant. -/
def variantText : Json → String
  | .string s => s
  | .bool b => if b then "true" else "false"
  | .null => ""
  | v => ops.text v

def encodeVariant (val : Json) (fieldName : String) : Except String (List UInt8) :=
  match val with
  | .null => .ok [0xFF]
  | .bool _ => do
    let bytes ← encodeScalarValue ops isBe .boolean val fieldName
    pure (TypeCode.boolean.toByte :: bytes)
  | .number n =>
    let tc : TypeCode := if n.asI64.isSome || n.asU64.isSome then .int32 else .float64
    do
      let bytes ← encodeScalarValue ops isBe tc val fieldName
      pure (tc.toByte :: bytes)
  | .string _ => do
    let bytes ← encodeStringValue isBe val fieldName
    pure (TypeCode.string.toByte :: bytes)
  | .array items =>
    if items.isEmpty then .ok ((TypeCode.float64.toByte ||| 0x08) :: pushSize 0 isBe)
    else if items.all isString then do
      let bytes ← encodeStringArray isBe val fieldName
      pure (0x68 :: bytes)
    else do
      let bytes ← encodeScalarArray ops isBe .float64 val fieldName
      pure ((TypeCode.float64.toByte ||| 0x08) :: bytes)
  | .object map =>
    let desc : StructureDesc := ⟨none, map.map fun e => ⟨e.1, .string⟩⟩
    .ok (0x80 :: encodeStructureDesc isBe desc ++ map.flatMap fun e => pushString (variantText ops e.2) isBe)

mutual

/-- The value of a field. A structure is only encoded as part of a whole structure. -/
def encodeTyped (whole : Bool) : FieldType → Json → String → Except String (List UInt8)
  | .scalar tc, val, name => encodeScalarValue ops isBe tc val name
  | .scalarArray tc, val, name => encodeScalarArray ops isBe tc val name
  | .string, val, name => encodeStringValue isBe val name
  | .boundedString _, val, name => encodeStringValue isBe val name
  | .stringArray, val, name => encodeStringArray isBe val name
  | .structure nested, val, name =>
    match whole, val with
    | true, .object obj => encodeStructureFull nested.fields obj
    | true, _ => .error s!"field '{name}' expects object"
    | false, _ => .error s!"field '{name}' expects object (nested structure)"
  | .structureArray nested, val, name => encodeStructureArray isBe (encodeStructureFull nested.fields) val name
  | .union fields, val, name => encodeUnion (encodeMember fields 0) val name
  | .unionArray fields, val, name =>
    encodeArray isBe "expects array for union[]" (fun item => encodeUnion (encodeMember fields 0) item name) val name
  | .variant, val, name => encodeVariant ops isBe val name
  | .variantArray, val, name =>
    encodeArray isBe "expects array for any[]" (fun item => encodeVariant ops isBe item name) val name

/-- All fields, in the order of the descriptor. Entries without a field are ignored. -/
def encodeStructureFull : List (FieldDescOf FieldType) → List (String × Json) → Except String (List UInt8)
  | [], _ => .ok []
  | f :: fs, values =>
    match Json.get values f.name with
    | none => .error s!"missing field '{f.name}' for full structure encoding"
    | some val => do
      let head ← encodeTyped true f.fieldType val f.name
      let tail ← encodeStructureFull fs values
      pure (head ++ tail)

def encodeMember : List (FieldDescOf FieldType) → Nat → String → Json → Option (Except String (List UInt8))
  | [], _, _, _ => none
  | f :: fs, index, selectedName, selectedVal =>
    if f.name = selectedName then
      some do
        let bytes ← encodeTyped false f.fieldType selectedVal selectedName
        pure (pushSize index isBe ++ bytes)
    else encodeMember fs (index + 1) selectedName selectedVal

end

def encodeFieldValue (ft : FieldType) (val : Json) (fieldName : String) : Except String (List UInt8) :=
  encodeTyped ops isBe false ft val fieldName

end

/-- The bits and values of a PUT so far, and the bit of the next field. -/
structure PutBody where
  bitset : List UInt8
  bitOffset : Nat
  data : List UInt8

def growBit (bitset : List UInt8) (bit : Nat) : List UInt8 :=
  setBit (bitset ++ List.replicate (bit / 8 + 1 - bitset.length) 0) bit

/-- Every entry of the input has a field. -/
def checkKeys (fields : List FieldDesc) (values : List (String × Json)) : Except String Unit :=
  match values.find? fun e => !fields.any fun f => f.name = e.1 with
  | some e => .error s!"unknown field '{e.1}' in input"
  | none => .ok ()

section

variable (ops : JsonOps) (isBe : Bool)

mutual

def encodePartialFields : List (FieldDescOf FieldType) → List (String × Json) → PutBody → Except String PutBody
  | [], _, body => .ok body
  | f :: fs, values, body => do
    let next ← encodePartialField f.fieldType f.name (Json.get values f.name) body
    encodePartialFields fs values next

/-- A structure has no bit of its own set, only the leaves below it. -/
def encodePartialField : FieldType → String → Option Json → PutBody → Except String PutBody
  | .structure nested, name, val, body =>
    match val with
    | some (.object obj) =>
      if obj.isEmpty then .error s!"field '{name}' object has no entries"
      else do
        checkKeys nested.fields obj
        encodePartialFields nested.fields obj { body with bitOffset := body.bitOffset + 1 }
    | some _ => .error s!"field '{name}' expects object"
    | none => .ok { body with bitOffset := body.bitOffset + 1 + countStructureFields nested }
  | ft, name, val, body =>
    match val with
    | some val => do
      let bytes ← encodeFieldValue ops isBe ft val name
      pure ⟨growBit body.bitset body.bitOffset, body.bitOffset + 1, body.data ++ bytes⟩
    | none => .ok { body with bitOffset := body.bitOffset + 1 }

end

def encodeStructurePartial (desc : StructureDesc) (values : List (String × Json)) (body : PutBody) :
    Except String PutBody := do
  checkKeys desc.fields values
  encodePartialFields ops isBe desc.fields values body

/-- An input that is no object stands for the field `value`. -/
def normalizeRoot (desc : StructureDesc) (input : Json) : Except String (List (String × Json)) :=
  match input with
  | .object obj => .ok obj
  | _ =>
    if desc.fields.any fun f => f.name = "value" then .ok [("value", input)]
    else .error "non-object input requires a 'value' field in structure"

def encodePutPayload (desc : StructureDesc) (input : Json) : Except String (List UInt8) := do
  let root ← normalizeRoot desc input
  let body ← encodeStructurePartial ops isBe desc root ⟨[], 1, []⟩
  if body.bitset.isEmpty then throw "no fields selected for PUT"
  pure (pushSize body.bitset.length isBe ++ body.bitset ++ body.data)

end

end Spvirit.Client
