import Spvirit.Codec.Introspect

/-! Decoding of values against a type description. -/

namespace Spvirit

open ByteOrder Fallible

/-- A scalar of `size` bytes from the natural its bytes stand for. -/
def scalarOfNat (tc : TypeCode) (word : Nat) : Option DecodedValue :=
  match tc with
  | .boolean => some (.boolean (word ≠ 0))
  | .int8 => some (.int8 (.ofUInt8 (.ofNat word)))
  | .uint8 => some (.uint8 (.ofNat word))
  | .int16 => some (.int16 (.ofUInt16 (.ofNat word)))
  | .uint16 => some (.uint16 (.ofNat word))
  | .int32 => some (.int32 (.ofUInt32 (.ofNat word)))
  | .uint32 => some (.uint32 (.ofNat word))
  | .int64 => some (.int64 (.ofUInt64 (.ofNat word)))
  | .uint64 => some (.uint64 (.ofNat word))
  | .float32 => some (.float32 ⟨.ofNat word⟩)
  | .float64 => some (.float64 ⟨.ofNat word⟩)
  | .string | .null | .variant => none

namespace PvdDecoder

variable (dec : PvdDecoder)

def decodeScalar (data : List UInt8) (tc : TypeCode) : Except DecodeError (DecodedValue × Nat) :=
  match tc.size with
  | none => .error (.malformed "type code has no fixed scalar size")
  | some size =>
    if data.length < size then .error (.truncated size data.length)
    else
      match scalarOfNat tc (ofBytes dec.isBe (data.take size)) with
      | some v => .ok (v, size)
      | none => .error (.malformed "type code is not a decodable scalar")

/-- The element loop of an array: `item` reads one element at an offset and
returns it with the offset behind it. -/
def decodeItems (item : Nat → DecodeM (DecodedValue × Nat)) : Nat → Nat → DecodeM (List DecodedValue × Nat)
  | 0, offset => pure ([], offset)
  | count + 1, offset => do
    let (v, next) ← item offset
    let (vs, stop) ← decodeItems item count next
    pure (v :: vs, stop)

/-- An array: its size, the checks on it, its elements. -/
def decodeArray (data : List UInt8) (minElem : Nat) (kind : String) (limit : Nat)
    (item : Nat → DecodeM (DecodedValue × Nat)) : DecodeM (DecodedValue × Nat) := do
  let (count, offset) ← dec.decodeSize data
  ofExcept (checkArrayCount count minElem (data.length - offset) kind limit)
  let (values, stop) ← decodeItems item count offset
  pure (.array values, stop)

def selectField (fields : List FieldDesc) (selector : Nat) : Except DecodeError FieldDesc :=
  match fields[selector]? with
  | some field => .ok field
  | none => .error (.unknownUnionSelector selector fields.length)

section

variable (decodeValue : List UInt8 → FieldType → DecodeM (DecodedValue × Nat))

/-- The field loop of a structure, from `offset` on. It stops at the end of the
data and at the first field that does not decode; a hostile error is surfaced. -/
def decodeFields (data : List UInt8) : List FieldDesc → Nat → DecodeM (List (String × DecodedValue) × Nat)
  | [], offset => pure ([], offset)
  | field :: rest, offset =>
    if data.length ≤ offset then pure ([], offset)
    else do
      match ← attempt isHostile (decodeValue (data.drop offset) field.fieldType) with
      | none => pure ([], offset)
      | some (value, consumed) => do
        let (fields, stop) ← decodeFields data rest (offset + consumed)
        pure ((field.name, value) :: fields, stop)

def structureBody (data : List UInt8) (desc : StructureDesc) : DecodeM (DecodedValue × Nat) := do
  let (fields, offset) ← decodeFields decodeValue data desc.fields 0
  pure (.structure fields, offset)

def decodeStructureWith (data : List UInt8) (desc : StructureDesc) : DecodeM (DecodedValue × Nat) :=
  dec.nodeBudgetScope data.length (structureBody decodeValue data desc)

/-- An element of a structure array: a null indicator, then the structure unless it is 0. -/
def structureItem (data : List UInt8) (desc : StructureDesc) (offset : Nat) : DecodeM (DecodedValue × Nat) :=
  match data[offset]? with
  | none => throw (.truncated (offset + 1) data.length)
  | some 0 => pure (.structure [], offset + 1)
  | some _ => do
    let (item, consumed) ← dec.decodeStructureWith decodeValue (data.drop (offset + 1)) desc
    pure (item, offset + 1 + consumed)

def unionItem (data : List UInt8) (fields : List FieldDesc) (offset : Nat) : DecodeM (DecodedValue × Nat) := do
  let (selector, consumed) ← dec.decodeSize (data.drop offset)
  let field ← ofExcept (selectField fields selector)
  let (value, valConsumed) ← decodeValue (data.drop (offset + consumed)) field.fieldType
  pure (.structure [(field.name, value)], offset + consumed + valConsumed)

/-- A variant value carries its own type descriptor, or `0xFF` for null. -/
def variantValue (data : List UInt8) : DecodeM (DecodedValue × Nat) :=
  match data with
  | [] => throw (.truncated 1 0)
  | 0xFF :: _ => pure (.null, 1)
  | _ => do
    let (variantType, typeConsumed) ← dec.parseTypeDesc dec.limits.maxDepth data
    noteVariant variantType
    let (value, valueConsumed) ← decodeValue (data.drop typeConsumed) variantType
    pure (value, typeConsumed + valueConsumed)

def decodeValueWith (data : List UInt8) : FieldType → DecodeM (DecodedValue × Nat)
  | .scalar tc => ofExcept (dec.decodeScalar data tc)
  | .string | .boundedString _ => do
    let (s, consumed) ← dec.decodeString data
    pure (.string s, consumed)
  | .scalarArray tc =>
    dec.decodeArray data (tc.size.getD 1) "scalar array" dec.limits.maxScalarArray fun offset => do
      let (v, consumed) ← ofExcept (dec.decodeScalar (data.drop offset) tc)
      pure (v, offset + consumed)
  | .stringArray =>
    dec.decodeArray data 1 "string array" dec.limits.maxStringArray fun offset => do
      let (s, consumed) ← dec.decodeString (data.drop offset)
      pure (.string s, offset + consumed)
  | .structure desc => dec.decodeStructureWith decodeValue data desc
  | .structureArray desc =>
    dec.decodeArray data 1 "structure array" dec.limits.maxStructArray (dec.structureItem decodeValue data desc)
  | .union fields => dec.unionItem decodeValue data fields 0
  | .unionArray fields =>
    dec.decodeArray data 1 "union array" dec.limits.maxUnionArray (dec.unionItem decodeValue data fields)
  | .variant => dec.variantValue decodeValue data
  | .variantArray =>
    dec.decodeArray data 1 "variant array" dec.limits.maxVariantArray fun offset => do
      let (v, consumed) ← decodeValue (data.drop offset) .variant
      pure (v, offset + consumed)

end

/-- Fuel bounds the recursion; each level of it enters the depth guard, so fuel
of `max_depth` never runs out first. -/
def decodeValueFuel : Nat → List UInt8 → FieldType → DecodeM (DecodedValue × Nat)
  | 0, data, _ =>
    dec.nodeBudgetScope data.length
      (dec.enter (throw (.depthExceeded (dec.limits.maxDepth + 1) dec.limits.maxDepth)))
  | fuel + 1, data, ft =>
    dec.nodeBudgetScope data.length (dec.enter (dec.decodeValueWith (decodeValueFuel fuel) data ft))

def decodeValue : List UInt8 → FieldType → DecodeM (DecodedValue × Nat) := dec.decodeValueFuel dec.limits.maxDepth

def decodeStructure : List UInt8 → StructureDesc → DecodeM (DecodedValue × Nat) :=
  dec.decodeStructureWith dec.decodeValue

end PvdDecoder

end Spvirit
