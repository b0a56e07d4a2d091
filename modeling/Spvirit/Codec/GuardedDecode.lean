import Spvirit.Codec.Guarded

/-! The decoding of values, of structures under a bitset and of monitor updates
on the machine. -/

namespace Spvirit.PvdDecoder.Guarded

open ByteOrder Fallible Machine

variable (dec : PvdDecoder)

/-- The bytes of one scalar are read once they are known to be there. -/
def decodeScalar (data : List UInt8) (tc : TypeCode) : GuardedM (DecodedValue × Nat) :=
  match tc.size with
  | none => fail (.malformed "type code has no fixed scalar size")
  | some size =>
    if data.length < size then fail (.truncated size data.length)
    else do
      let bytes ← slice data 0 size
      match scalarOfNat tc (ofBytes dec.isBe bytes) with
      | some v => pure (v, size)
      | none => fail (.malformed "type code is not a decodable scalar")

def decodeItems (item : Nat → GuardedM (DecodedValue × Nat)) : Nat → Nat → GuardedM (List DecodedValue × Nat)
  | 0, offset => pure ([], offset)
  | count + 1, offset => do
    let (v, next) ← item offset
    let (vs, stop) ← decodeItems item count next
    pure (v :: vs, stop)

def decodeArray (data : List UInt8) (minElem : Nat) (kind : String) (limit : Nat)
    (item : Nat → GuardedM (DecodedValue × Nat)) : GuardedM (DecodedValue × Nat) := do
  let (count, offset) ← decodeSize dec data
  let available ← sub data.length offset
  lift (ofExcept (checkArrayCount count minElem available kind limit))
  let (values, stop) ← decodeItems item count offset
  pure (.array values, stop)

def itemAt {α : Type} (data : List UInt8) (read : List UInt8 → GuardedM (α × Nat)) (value : α → DecodedValue)
    (offset : Nat) : GuardedM (DecodedValue × Nat) := do
  let rest ← sliceFrom data offset
  let (a, consumed) ← read rest
  let next ← add offset consumed
  pure (value a, next)

section

variable (decodeValue : List UInt8 → FieldType → GuardedM (DecodedValue × Nat))

def decodeFields (data : List UInt8) : List FieldDesc → Nat → GuardedM (List (String × DecodedValue) × Nat)
  | [], offset => pure ([], offset)
  | field :: fields, offset =>
    if data.length ≤ offset then pure ([], offset)
    else do
      let rest ← sliceFrom data offset
      match ← attempt (passes isHostile) (decodeValue rest field.fieldType) with
      | none => pure ([], offset)
      | some (value, consumed) => do
        let next ← add offset consumed
        let (values, stop) ← decodeFields data fields next
        pure ((field.name, value) :: values, stop)

def structureBody (data : List UInt8) (desc : StructureDesc) : GuardedM (DecodedValue × Nat) := do
  let (fields, offset) ← decodeFields decodeValue data desc.fields 0
  pure (.structure fields, offset)

def decodeStructureWith (data : List UInt8) (desc : StructureDesc) : GuardedM (DecodedValue × Nat) :=
  nodeBudgetScope dec data.length (structureBody decodeValue data desc)

def structureItem (data : List UInt8) (desc : StructureDesc) (offset : Nat) : GuardedM (DecodedValue × Nat) :=
  if data.length ≤ offset then do
    let needed ← add offset 1
    fail (.truncated needed data.length)
  else do
    let indicator ← index data offset
    let next ← add offset 1
    if indicator = 0 then pure (.structure [], next)
    else do
      let rest ← sliceFrom data next
      let (item, consumed) ← decodeStructureWith dec decodeValue rest desc
      let stop ← add next consumed
      pure (item, stop)

def unionItem (data : List UInt8) (fields : List FieldDesc) (offset : Nat) : GuardedM (DecodedValue × Nat) := do
  let rest ← sliceFrom data offset
  let (selector, consumed) ← decodeSize dec rest
  let next ← add offset consumed
  let field ← lift (ofExcept (selectField fields selector))
  let rest ← sliceFrom data next
  let (value, valConsumed) ← decodeValue rest field.fieldType
  let stop ← add next valConsumed
  pure (.structure [(field.name, value)], stop)

def variantValue (data : List UInt8) : GuardedM (DecodedValue × Nat) :=
  if data.isEmpty then fail (.truncated 1 0)
  else do
    let first ← index data 0
    if first = 0xFF then pure (.null, 1)
    else do
      let (variantType, typeConsumed) ← parseTypeDesc dec dec.limits.maxDepth data
      lift (noteVariant variantType)
      let rest ← sliceFrom data typeConsumed
      let (value, valueConsumed) ← decodeValue rest variantType
      let stop ← add typeConsumed valueConsumed
      pure (value, stop)

def decodeValueWith (data : List UInt8) : FieldType → GuardedM (DecodedValue × Nat)
  | .scalar tc => decodeScalar dec data tc
  | .string | .boundedString _ => do
    let (s, consumed) ← decodeString dec data
    pure (.string s, consumed)
  | .scalarArray tc =>
    decodeArray dec data (tc.size.getD 1) "scalar array" dec.limits.maxScalarArray
      (itemAt data (fun rest => decodeScalar dec rest tc) id)
  | .stringArray =>
    decodeArray dec data 1 "string array" dec.limits.maxStringArray (itemAt data (decodeString dec) .string)
  | .structure desc => decodeStructureWith dec decodeValue data desc
  | .structureArray desc =>
    decodeArray dec data 1 "structure array" dec.limits.maxStructArray (structureItem dec decodeValue data desc)
  | .union fields => unionItem dec decodeValue data fields 0
  | .unionArray fields =>
    decodeArray dec data 1 "union array" dec.limits.maxUnionArray (unionItem dec decodeValue data fields)
  | .variant => variantValue dec decodeValue data
  | .variantArray =>
    decodeArray dec data 1 "variant array" dec.limits.maxVariantArray
      (itemAt data (fun rest => decodeValue rest .variant) id)

end

def decodeValueFuel : Nat → List UInt8 → FieldType → GuardedM (DecodedValue × Nat)
  | 0, data, _ =>
    nodeBudgetScope dec data.length
      (enter dec (fail (.depthExceeded (dec.limits.maxDepth + 1) dec.limits.maxDepth)))
  | fuel + 1, data, ft =>
    nodeBudgetScope dec data.length (enter dec (decodeValueWith dec (decodeValueFuel fuel) data ft))

def decodeValue : List UInt8 → FieldType → GuardedM (DecodedValue × Nat) := decodeValueFuel dec dec.limits.maxDepth

def decodeStructure : List UInt8 → StructureDesc → GuardedM (DecodedValue × Nat) :=
  decodeStructureWith dec (decodeValue dec)

section

variable (data bitset : List UInt8) (counts : List Nat)

/-- Some bit of those that follow `start` is set; the search stops at the first. -/
def anyBits (start : Nat) : Nat → Nat → GuardedM Bool
  | 0, _ => pure false
  | count + 1, i => do
    let bit ← add start i
    if bitAt bitset bit then pure true else anyBits start count (i + 1)

def walkLeaf (ft : FieldType) (name : String) (offset bitOffset : Nat) : GuardedM Walk := do
  let next ← add bitOffset 1
  if bitAt bitset bitOffset then
    if data.length ≤ offset then pure ⟨[], offset, next, false⟩
    else do
      let rest ← sliceFrom data offset
      match ← attempt (passes isHostile) (decodeValue dec rest ft) with
      | some (value, consumed) => do
        let stop ← add offset consumed
        pure ⟨[(name, value)], stop, next, true⟩
      | none => pure ⟨[], offset, next, false⟩
  else pure ⟨[], offset, next, true⟩

def walkWhole (desc : StructureDesc) (name : String) (offset next : Nat) : GuardedM Walk :=
  if offset < data.length then do
    let rest ← sliceFrom data offset
    match ← attempt (passes isHostile) (decodeStructure dec rest desc) with
    | some (value, consumed) => do
      let stop ← add offset consumed
      pure ⟨[(name, value)], stop, next, true⟩
    | none => pure ⟨[], offset, next, false⟩
  else pure ⟨[], offset, next, true⟩

mutual

def walkFields : List (FieldDescOf FieldType) → Nat → Nat → GuardedM Walk
  | [], offset, bitOffset => pure ⟨[], offset, bitOffset, true⟩
  | f :: fs, offset, bitOffset => do
    let here ← walkField f.fieldType f.name offset bitOffset
    if here.finished then do
      let after ← walkFields fs here.offset here.bitOffset
      pure { after with fields := here.fields ++ after.fields }
    else pure here

def walkField : FieldType → String → Nat → Nat → GuardedM Walk
  | .structure nested, name, offset, bitOffset => do
    let childStart ← add bitOffset 1
    let slot ← sub bitOffset 1
    let childCount ← index counts slot
    let anyChild ← anyBits bitset childStart childCount 0
    if bitAt bitset bitOffset ∧ ¬ anyChild then do
      let next ← add childStart childCount
      walkWhole dec data nested name offset next
    else if anyChild then do
      let inner ← walkFields nested.fields offset childStart
      if inner.finished then
        pure { inner with fields := if inner.fields.isEmpty then [] else [(name, .structure inner.fields)] }
      else pure { inner with fields := [] }
    else do
      let next ← add childStart childCount
      pure ⟨[], offset, next, true⟩
  | ft, name, offset, bitOffset => walkLeaf dec data bitset ft name offset bitOffset

end

end

/-- The field counts are sums over the descriptor: none passes their total. -/
def bitsetWalk (data : List UInt8) (desc : StructureDesc) (bitset : List UInt8) : GuardedM (DecodedValue × Nat) :=
  if wordBound ≤ countStructureFields desc then throw .panic
  else do
    let w ← walkFields dec data bitset (subtreeFieldCounts desc.fields) desc.fields 0 1
    pure (.structure w.fields, w.offset)

def bitsetBody (data : List UInt8) (desc : StructureDesc) (bitset : List UInt8) : GuardedM (DecodedValue × Nat) :=
  if ¬ hasFieldBits bitset ∧ bitAt bitset 0 then do
    match ← attempt (passes isHostile) (decodeStructure dec data desc) with
    | some result => pure result
    | none => bitsetWalk dec data desc bitset
  else bitsetWalk dec data desc bitset

def decodeStructureWithBitsetBody (data : List UInt8) (desc : StructureDesc) (bitset : List UInt8) :
    GuardedM (DecodedValue × Nat) :=
  nodeBudgetScope dec data.length (bitsetBody dec data desc bitset)

def decodeStructureWithBitset (data : List UInt8) (desc : StructureDesc) : GuardedM (DecodedValue × Nat) :=
  if data.isEmpty then fail (.truncated 1 0)
  else do
    let (bitsetSize, offset) ← decodeSize dec data
    if bitsetSize = 0 then pure (.structure [], offset)
    else do
      let stop ← add offset bitsetSize
      if data.length < stop then pure (.structure [], offset)
      else do
        let bitset ← slice data offset stop
        let rest ← sliceFrom data stop
        let (value, consumed) ← decodeStructureWithBitsetBody dec rest desc bitset
        let total ← add stop consumed
        pure (value, total)

def readBitset (data : List UInt8) (offset : Nat) : GuardedM (List UInt8 × Nat) :=
  if data.length < offset then fail (.truncated offset data.length)
  else do
    let rest ← sliceFrom data offset
    let (size, consumed) ← decodeSize dec rest
    let start ← add offset consumed
    let stop ← add start size
    if data.length < stop then fail (.truncated stop data.length)
    else do
      let bits ← slice data start stop
      pure (bits, stop)

def decodeMonitorUpdate (data : List UInt8) (desc : StructureDesc) : GuardedM MonitorUpdate := do
  let (changed, offset) ← readBitset dec data 0
  let rest ← sliceFrom data offset
  let (value, consumed) ← decodeStructureWithBitsetBody dec rest desc changed
  let offset ← add offset consumed
  let (overrun, next) ← readBitset dec data offset
  pure ⟨value, changed, overrun, next, bitPaths desc⟩

end Spvirit.PvdDecoder.Guarded
