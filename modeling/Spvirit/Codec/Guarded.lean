import Spvirit.Codec.Bitset
import Spvirit.Foundation.Machine

/-! The decoder on the machine: every index, slice and sum of the source panics out of range. -/

namespace Spvirit

open ByteOrder Fallible Machine

abbrev GuardedM := Fallible Cells (Stop DecodeError)

namespace PvdDecoder.Guarded

variable (dec : PvdDecoder) {α : Type}

def decodeSize (data : List UInt8) : GuardedM (Nat × Nat) :=
  if data.isEmpty then fail (.truncated 1 0)
  else do
    let first ← index data 0
    if first = 0xFF then pure (0, 1)
    else if first < 254 then pure (first.toNat, 1)
    else if data.length < 5 then fail (.truncated 5 data.length)
    else do
      let b1 ← index data 1
      let b2 ← index data 2
      let b3 ← index data 3
      let b4 ← index data 4
      pure (ofBytes dec.isBe [b1, b2, b3, b4], 5)

def decodeString (data : List UInt8) : GuardedM (String × Nat) := do
  let (size, sizeBytes) ← decodeSize dec data
  if size = 0 then pure ("", sizeBytes)
  else do
    let stop ← add sizeBytes size
    if data.length < stop then fail (.truncated stop data.length)
    else do
      let bytes ← slice data sizeBytes stop
      match fromUtf8 bytes with
      | none => fail (.malformed "string is not valid UTF-8")
      | some s => pure (s, stop)

def enter (m : GuardedM α) : GuardedM α := fun c =>
  if wordBound ≤ c.depth + 1 then (.error .panic, c)
  else if dec.limits.maxDepth < c.depth + 1 then
    (.error (.error (.depthExceeded (c.depth + 1) dec.limits.maxDepth)), c)
  else
    let (r, c') := m { c with depth := c.depth + 1 }
    (r, { c' with depth := c'.depth - 1 })

def checkResolvedHeight (height : Nat) : GuardedM Unit := fun c =>
  if wordBound ≤ c.depth + height then (.error .panic, c) else lift (dec.checkResolvedHeight height) c

def nodeBudgetScope (inputLen : Nat) (m : GuardedM α) : GuardedM α := fun c =>
  let c :=
    if c.budgetScope = 0 then
      { c with nodes := 0, nodeLimit := nodeCeiling dec.limits.maxStructFields inputLen }
    else c
  if wordBound ≤ c.budgetScope + 1 then (.error .panic, c)
  else
    let (r, c') := m { c with budgetScope := c.budgetScope + 1 }
    (r, { c' with budgetScope := c'.budgetScope - 1 })

/-- The height and the node count are sums over the type: none passes its total. -/
def register (key : UInt16) (ft : FieldType) : GuardedM Unit :=
  if wordBound ≤ typeHeight ft ∨ wordBound ≤ typeNodes ft then throw .panic else lift (PvdDecoder.register key ft)

def typeKey (data : List UInt8) : GuardedM UInt16 := do
  let k0 ← index data 1
  let k1 ← index data 2
  pure (dec.typeKey k0 k1)

section

variable (parseTypeDesc : List UInt8 → GuardedM (FieldType × Nat))

def fieldDescBody (data : List UInt8) : GuardedM (FieldDesc × Nat) :=
  if data.isEmpty then fail (.truncated 1 0)
  else do
    let (name, consumed) ← decodeString dec data
    if data.length ≤ consumed then do
      let needed ← add consumed 1
      fail (.truncated needed data.length)
    else do
      let rest ← sliceFrom data consumed
      let (fieldType, typeConsumed) ← parseTypeDesc rest
      let offset ← add consumed typeConsumed
      pure (⟨name, fieldType⟩, offset)

def parseFieldDescWith (data : List UInt8) : GuardedM (FieldDesc × Nat) :=
  nodeBudgetScope dec data.length (fieldDescBody dec parseTypeDesc data)

def parseFields (data : List UInt8) : Nat → Nat → GuardedM (List FieldDesc × Nat)
  | 0, offset => pure ([], offset)
  | count + 1, offset =>
    if data.length ≤ offset then pure ([], offset)
    else do
      let rest ← sliceFrom data offset
      match ← attempt (passes isHostile) (parseFieldDescWith dec parseTypeDesc rest) with
      | none => pure ([], offset)
      | some (field, consumed) => do
        let next ← add offset consumed
        let (fields, stop) ← parseFields data count next
        pure (field :: fields, stop)

def parseStructureDesc (data : List UInt8) : GuardedM (StructureDesc × Nat) := do
  let (structId, consumed) ← decodeString dec data
  let rest ← sliceFrom data consumed
  let (fieldCount, countConsumed) ← decodeSize dec rest
  let offset ← add consumed countConsumed
  if dec.limits.maxStructFields < fieldCount then
    fail (.arrayTooLarge "structure fields" fieldCount dec.limits.maxStructFields)
  else do
    let (fields, offset) ← parseFields dec parseTypeDesc data fieldCount offset
    pure (⟨if structId.isEmpty then none else some structId, fields⟩, offset)

def bodyOffset (data : List UInt8) (isArray : Bool) (elementTag : UInt8) : GuardedM Nat :=
  if isArray then
    if data.length ≤ 1 then fail (.truncated 2 data.length)
    else do
      let tag ← index data 1
      if tag ≠ elementTag then fail (.unknownTypeTag tag) else pure 2
  else pure 1

def parseBody (data : List UInt8) (isArray : Bool) (elementTag : UInt8) (type : StructureDesc → FieldType) :
    GuardedM (FieldType × Nat) := do
  let offset ← bodyOffset data isArray elementTag
  let rest ← sliceFrom data offset
  let (desc, consumed) ← parseStructureDesc dec parseTypeDesc rest
  let stop ← add offset consumed
  pure (type desc, stop)

def sizeBehindTag (data : List UInt8) : GuardedM (Nat × Nat) := do
  let rest ← sliceFrom data 1
  let (size, consumed) ← decodeSize dec rest
  let offset ← add 1 consumed
  pure (size, offset)

def boundOffset (typeByte : UInt8) (data : List UInt8) : GuardedM Nat :=
  if arrayMode typeByte ≠ 0 ∧ arrayMode typeByte ≠ 0x08 then do
    let (_, offset) ← sizeBehindTag dec data
    pure offset
  else pure 1

def parseLiteral (typeByte : UInt8) (data : List UInt8) : GuardedM (FieldType × Nat) :=
  if typeByte = 0xFF then pure (.variant, 1)
  else if typeByte = 0x80 ∨ typeByte = 0x88 then
    parseBody dec parseTypeDesc data (typeByte &&& 0x08 ≠ 0) 0x80 fun desc =>
      if typeByte &&& 0x08 ≠ 0 then .structureArray desc else .structure desc
  else if typeByte = 0x81 ∨ typeByte = 0x89 then
    parseBody dec parseTypeDesc data (typeByte &&& 0x08 ≠ 0) 0x81 fun desc =>
      if typeByte &&& 0x08 ≠ 0 then .unionArray desc.fields else .union desc.fields
  else if typeByte = 0x82 then pure (.variant, 1)
  else if typeByte = 0x8A then pure (.variantArray, 1)
  else if typeByte = 0x83 ∨ typeByte = 0x86 then do
    let (bound, offset) ← sizeBehindTag dec data
    pure (.boundedString (UInt32.ofNat bound), offset)
  else do
    let offset ← boundOffset dec typeByte data
    let ft ← lift (ofExcept (scalarType typeByte))
    pure (ft, offset)

def parseTypeDescWith (data : List UInt8) : GuardedM (FieldType × Nat) :=
  if data.isEmpty then fail (.truncated 1 0)
  else do
    let typeByte ← index data 0
    if typeByte = 0xFD then
      if data.length < 3 then fail (.truncated 3 data.length)
      else do
        let key ← typeKey dec data
        let payload ← sliceFrom data 3
        let (ft, consumed) ← parseTypeDesc payload
        register key ft
        let stop ← add 3 consumed
        pure (ft, stop)
    else if typeByte = 0xFE then
      if data.length < 3 then fail (.truncated 3 data.length)
      else do
        let key ← typeKey dec data
        match (← get).registry key with
        | some (ft, height, nodes) => do
          checkResolvedHeight dec height
          lift (chargeNodes nodes)
          lift (noteStored ft)
          pure (ft, 3)
        | none => fail (.unresolvedTypeId key)
    else do
      lift (chargeNodes 1)
      lift noteLiteral
      parseLiteral dec parseTypeDesc typeByte data

end

def parseTypeDesc : Nat → List UInt8 → GuardedM (FieldType × Nat)
  | 0, _ => enter dec (fail (.depthExceeded (dec.limits.maxDepth + 1) dec.limits.maxDepth))
  | fuel + 1, data => enter dec (parseTypeDescWith dec (parseTypeDesc fuel) data)

def parseFieldDesc : List UInt8 → GuardedM (FieldDesc × Nat) :=
  parseFieldDescWith dec (parseTypeDesc dec dec.limits.maxDepth)

def parseIntrospectionWith (parseIntrospection : List UInt8 → GuardedM (StructureDesc × Nat)) (data : List UInt8) :
    GuardedM (StructureDesc × Nat) :=
  if data.isEmpty then fail (.truncated 1 0)
  else do
    let typeByte ← index data 0
    if typeByte = 0x80 then do
      lift (chargeNodes 1)
      lift noteLiteral
      let body ← sliceFrom data 1
      let (desc, consumed) ← parseStructureDesc dec (parseTypeDesc dec dec.limits.maxDepth) body
      let stop ← add 1 consumed
      pure (desc, stop)
    else if typeByte = 0xFD then
      if data.length < 3 then fail (.truncated 3 data.length)
      else do
        let key ← typeKey dec data
        let payload ← sliceFrom data 3
        let (desc, consumed) ← parseIntrospection payload
        register key (.structure desc)
        let stop ← add 3 consumed
        pure (desc, stop)
    else if typeByte = 0xFE then
      if data.length < 3 then fail (.truncated 3 data.length)
      else do
        let key ← typeKey dec data
        match (← get).registry key with
        | some (.structure desc, height, nodes) => do
          checkResolvedHeight dec height
          lift (chargeNodes nodes)
          lift (noteStored (.structure desc))
          pure (desc, 3)
        | _ => fail (.unresolvedTypeId key)
    else fail (.unknownTypeTag typeByte)

def parseIntrospectionFuel : Nat → List UInt8 → GuardedM (StructureDesc × Nat)
  | 0, data =>
    nodeBudgetScope dec data.length
      (enter dec (fail (.depthExceeded (dec.limits.maxDepth + 1) dec.limits.maxDepth)))
  | fuel + 1, data =>
    nodeBudgetScope dec data.length (enter dec (parseIntrospectionWith dec (parseIntrospectionFuel fuel) data))

def parseIntrospectionWithLen : List UInt8 → GuardedM (StructureDesc × Nat) :=
  parseIntrospectionFuel dec dec.limits.maxDepth

def parseIntrospection (data : List UInt8) : GuardedM StructureDesc := do
  let (desc, _) ← parseIntrospectionWithLen dec data
  pure desc

end PvdDecoder.Guarded

end Spvirit
