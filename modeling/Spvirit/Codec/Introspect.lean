import Spvirit.Codec.Decoder

/-! Parsing of type descriptors. The depth guard stops the recursion before its fuel runs out. -/

namespace Spvirit.PvdDecoder

open ByteOrder Fallible

variable (dec : PvdDecoder)

def typeKey (k0 k1 : UInt8) : UInt16 := UInt16.ofNat (ofBytes dec.isBe [k0, k1])

section

variable (parseTypeDesc : List UInt8 → DecodeM (FieldType × Nat))

def fieldDescBody (data : List UInt8) : DecodeM (FieldDesc × Nat) :=
  if data.isEmpty then throw (.truncated 1 0)
  else do
    let (name, consumed) ← dec.decodeString data
    if data.length ≤ consumed then throw (.truncated (consumed + 1) data.length)
    else do
      let (fieldType, typeConsumed) ← parseTypeDesc (data.drop consumed)
      pure (⟨name, fieldType⟩, consumed + typeConsumed)

def parseFieldDescWith (data : List UInt8) : DecodeM (FieldDesc × Nat) :=
  dec.nodeBudgetScope data.length (dec.fieldDescBody parseTypeDesc data)

/-- The field loop of a structure descriptor, from `offset` on. It stops at the
end of the data and at the first field that does not parse; a hostile error is
surfaced. -/
def parseFields (data : List UInt8) : Nat → Nat → DecodeM (List FieldDesc × Nat)
  | 0, offset => pure ([], offset)
  | count + 1, offset =>
    if data.length ≤ offset then pure ([], offset)
    else do
      match ← attempt isHostile (dec.parseFieldDescWith parseTypeDesc (data.drop offset)) with
      | none => pure ([], offset)
      | some (field, consumed) => do
        let (fields, stop) ← parseFields data count (offset + consumed)
        pure (field :: fields, stop)

def parseStructureDesc (data : List UInt8) : DecodeM (StructureDesc × Nat) := do
  let (structId, consumed) ← dec.decodeString data
  let (fieldCount, countConsumed) ← dec.decodeSize (data.drop consumed)
  if dec.limits.maxStructFields < fieldCount then
    throw (.arrayTooLarge "structure fields" fieldCount dec.limits.maxStructFields)
  else do
    let (fields, offset) ← dec.parseFields parseTypeDesc data fieldCount (consumed + countConsumed)
    pure (⟨if structId.isEmpty then none else some structId, fields⟩, offset)

/-- The offset of a structure or union body: an array descriptor repeats the element's tag. -/
def bodyOffset (data : List UInt8) (isArray : Bool) (elementTag : UInt8) : Except DecodeError Nat :=
  if isArray then
    match data.drop 1 with
    | [] => .error (.truncated 2 data.length)
    | tag :: _ => if tag ≠ elementTag then .error (.unknownTypeTag tag) else .ok 2
  else .ok 1

/-- The mode bits of a scalar tag: 0x08 is a variable array, 0x10 a bounded and 0x18 a fixed one. -/
def arrayMode (typeByte : UInt8) : UInt8 := typeByte &&& 0x18

/-- The bound of a bounded or fixed array is skipped. -/
def boundOffset (typeByte : UInt8) (data : List UInt8) : DecodeM Nat :=
  if arrayMode typeByte ≠ 0 ∧ arrayMode typeByte ≠ 0x08 then do
    let (_, consumed) ← dec.decodeSize (data.drop 1)
    pure (1 + consumed)
  else pure 1

/-- A scalar, a string or an array of them, by its tag. -/
def scalarType (typeByte : UInt8) : Except DecodeError FieldType :=
  if typeByte &&& 0xE7 = 0x60 then .ok (if arrayMode typeByte ≠ 0 then .stringArray else .string)
  else
    match TypeCode.fromByte (typeByte &&& 0xE7) with
    | some tc => .ok (if arrayMode typeByte ≠ 0 then .scalarArray tc else .scalar tc)
    | none => .error (.unknownTypeTag typeByte)

def parseScalarDesc (typeByte : UInt8) (data : List UInt8) : DecodeM (FieldType × Nat) := do
  let offset ← dec.boundOffset typeByte data
  let ft ← ofExcept (scalarType typeByte)
  pure (ft, offset)

/-- A descriptor other than a registry definition or reference. -/
def parseLiteral (typeByte : UInt8) (data : List UInt8) : DecodeM (FieldType × Nat) :=
  if typeByte = 0xFF then pure (.variant, 1)
  else if typeByte = 0x80 ∨ typeByte = 0x88 then do
    let isArray := typeByte &&& 0x08 ≠ 0
    let offset ← ofExcept (bodyOffset data isArray 0x80)
    let (desc, consumed) ← dec.parseStructureDesc parseTypeDesc (data.drop offset)
    pure (if isArray then .structureArray desc else .structure desc, offset + consumed)
  else if typeByte = 0x81 ∨ typeByte = 0x89 then do
    let isArray := typeByte &&& 0x08 ≠ 0
    let offset ← ofExcept (bodyOffset data isArray 0x81)
    let (desc, consumed) ← dec.parseStructureDesc parseTypeDesc (data.drop offset)
    pure (if isArray then .unionArray desc.fields else .union desc.fields, offset + consumed)
  else if typeByte = 0x82 then pure (.variant, 1)
  else if typeByte = 0x8A then pure (.variantArray, 1)
  else if typeByte = 0x83 ∨ typeByte = 0x86 then do
    let (bound, consumed) ← dec.decodeSize (data.drop 1)
    pure (.boundedString (UInt32.ofNat bound), 1 + consumed)
  else dec.parseScalarDesc typeByte data

/-- The tag `0xFD` defines a registry entry and `0xFE` refers to one. A
definition is charged through its recursive parse, a reference the stored count. -/
def parseTypeDescWith (data : List UInt8) : DecodeM (FieldType × Nat) :=
  match data with
  | [] => throw (.truncated 1 0)
  | 0xFD :: k0 :: k1 :: payload => do
    let (ft, consumed) ← parseTypeDesc payload
    register (dec.typeKey k0 k1) ft
    pure (ft, 3 + consumed)
  | 0xFE :: k0 :: k1 :: _ => do
    match (← get).registry (dec.typeKey k0 k1) with
    | some (ft, height, nodes) => do
      dec.checkResolvedHeight height
      chargeNodes nodes
      noteStored ft
      pure (ft, 3)
    | none => throw (.unresolvedTypeId (dec.typeKey k0 k1))
  | typeByte :: _ =>
    if typeByte = 0xFD ∨ typeByte = 0xFE then throw (.truncated 3 data.length)
    else do
      chargeNodes 1
      noteLiteral
      dec.parseLiteral parseTypeDesc typeByte data

end

def parseTypeDesc : Nat → List UInt8 → DecodeM (FieldType × Nat)
  | 0, _ => dec.enter (throw (.depthExceeded (dec.limits.maxDepth + 1) dec.limits.maxDepth))
  | fuel + 1, data => dec.enter (dec.parseTypeDescWith (parseTypeDesc fuel) data)

def parseFieldDesc : List UInt8 → DecodeM (FieldDesc × Nat) :=
  dec.parseFieldDescWith (dec.parseTypeDesc dec.limits.maxDepth)

section

variable (parseIntrospection : List UInt8 → DecodeM (StructureDesc × Nat))

def parseIntrospectionWith (data : List UInt8) : DecodeM (StructureDesc × Nat) :=
  match data with
  | [] => throw (.truncated 1 0)
  | 0x80 :: body => do
    chargeNodes 1
    noteLiteral
    let (desc, consumed) ← dec.parseStructureDesc (dec.parseTypeDesc dec.limits.maxDepth) body
    pure (desc, 1 + consumed)
  | 0xFD :: k0 :: k1 :: payload => do
    let (desc, consumed) ← parseIntrospection payload
    register (dec.typeKey k0 k1) (.structure desc)
    pure (desc, 3 + consumed)
  | 0xFE :: k0 :: k1 :: _ => do
    match (← get).registry (dec.typeKey k0 k1) with
    | some (.structure desc, height, nodes) => do
      dec.checkResolvedHeight height
      chargeNodes nodes
      noteStored (.structure desc)
      pure (desc, 3)
    | _ => throw (.unresolvedTypeId (dec.typeKey k0 k1))
  | typeByte :: _ =>
    if typeByte = 0xFD ∨ typeByte = 0xFE then throw (.truncated 3 data.length)
    else throw (.unknownTypeTag typeByte)

end

def parseIntrospectionFuel : Nat → List UInt8 → DecodeM (StructureDesc × Nat)
  | 0, data =>
    dec.nodeBudgetScope data.length
      (dec.enter (throw (.depthExceeded (dec.limits.maxDepth + 1) dec.limits.maxDepth)))
  | fuel + 1, data =>
    dec.nodeBudgetScope data.length (dec.enter (dec.parseIntrospectionWith (parseIntrospectionFuel fuel) data))

def parseIntrospectionWithLen : List UInt8 → DecodeM (StructureDesc × Nat) :=
  dec.parseIntrospectionFuel dec.limits.maxDepth

def parseIntrospection (data : List UInt8) : DecodeM StructureDesc := do
  let (desc, _) ← dec.parseIntrospectionWithLen data
  pure desc

end Spvirit.PvdDecoder
