import Spvirit.Codec.Decode

/-! Decoding of the fields a bitset selects. Bit 0 is the whole structure; the fields follow depth first. -/

namespace Spvirit

open Fallible

def bitAt (bits : List UInt8) (n : Nat) : Bool :=
  match bits[n / 8]? with
  | some b => b.toNat.testBit (n % 8)
  | none => false

/-- Some bit other than bit 0 is set. -/
def hasFieldBits : List UInt8 → Bool
  | [] => false
  | b :: rest => (b &&& 0xFE) ≠ 0 || rest.any (· ≠ 0)

mutual

/-- The number of fields of a structure, nested ones included. -/
def countFields : List (FieldDescOf FieldType) → Nat
  | [] => 0
  | f :: fs => 1 + countNested f.fieldType + countFields fs

def countNested : FieldType → Nat
  | .structure desc => countFields desc.fields
  | _ => 0

end

def countStructureFields (desc : StructureDesc) : Nat := countFields desc.fields

mutual

/-- For each field in bit order, the number of bits of its own fields. -/
def subtreeFieldCounts : List (FieldDescOf FieldType) → List Nat
  | [] => []
  | f :: fs => (nestedCounts f.fieldType).length :: nestedCounts f.fieldType ++ subtreeFieldCounts fs

def nestedCounts : FieldType → List Nat
  | .structure desc => subtreeFieldCounts desc.fields
  | _ => []

end

/-- Where a walk stands after some fields: `finished` is false if it stopped
leniently on short or garbled data. -/
structure Walk where
  fields : List (String × DecodedValue)
  offset : Nat
  bitOffset : Nat
  finished : Bool

namespace PvdDecoder

variable (dec : PvdDecoder)

section

variable (data bitset : List UInt8) (counts : List Nat)

/-- A field that is no structure is read if its bit is set. -/
def walkLeaf (ft : FieldType) (name : String) (offset bitOffset : Nat) : DecodeM Walk :=
  if bitAt bitset bitOffset then
    if data.length ≤ offset then pure ⟨[], offset, bitOffset + 1, false⟩
    else do
      match ← attempt isHostile (dec.decodeValue (data.drop offset) ft) with
      | some (value, consumed) => pure ⟨[(name, value)], offset + consumed, bitOffset + 1, true⟩
      | none => pure ⟨[], offset, bitOffset + 1, false⟩
  else pure ⟨[], offset, bitOffset + 1, true⟩

/-- A structure whose own bit stands for all of it; `next` is the bit behind its fields. -/
def walkWhole (desc : StructureDesc) (name : String) (offset next : Nat) : DecodeM Walk :=
  if offset < data.length then do
    match ← attempt isHostile (dec.decodeStructure (data.drop offset) desc) with
    | some (value, consumed) => pure ⟨[(name, value)], offset + consumed, next, true⟩
    | none => pure ⟨[], offset, next, false⟩
  else pure ⟨[], offset, next, true⟩

mutual

def walkFields : List (FieldDescOf FieldType) → Nat → Nat → DecodeM Walk
  | [], offset, bitOffset => pure ⟨[], offset, bitOffset, true⟩
  | f :: fs, offset, bitOffset => do
    let here ← walkField f.fieldType f.name offset bitOffset
    if here.finished then do
      let after ← walkFields fs here.offset here.bitOffset
      pure { after with fields := here.fields ++ after.fields }
    else pure here

/-- One field at its bit. A structure with its own bit and none below is read
whole; with a bit below it is walked, and reported unless it comes out empty. -/
def walkField : FieldType → String → Nat → Nat → DecodeM Walk
  | .structure nested, name, offset, bitOffset =>
    let present := bitAt bitset bitOffset
    let childStart := bitOffset + 1
    let childCount := counts.getD (bitOffset - 1) 0
    let anyChild := (List.range childCount).any fun i => bitAt bitset (childStart + i)
    if present ∧ ¬ anyChild then dec.walkWhole data nested name offset (childStart + childCount)
    else if anyChild then do
      let inner ← walkFields nested.fields offset childStart
      if inner.finished then
        pure { inner with fields := if inner.fields.isEmpty then [] else [(name, .structure inner.fields)] }
      else pure { inner with fields := [] }
    else pure ⟨[], offset, childStart + childCount, true⟩
  | ft, name, offset, bitOffset => dec.walkLeaf data bitset ft name offset bitOffset

end

end

def bitsetWalk (data : List UInt8) (desc : StructureDesc) (bitset : List UInt8) : DecodeM (DecodedValue × Nat) := do
  let w ← dec.walkFields data bitset (subtreeFieldCounts desc.fields) desc.fields 0 1
  pure (.structure w.fields, w.offset)

/-- A bitset of bit 0 alone asks for the whole structure. -/
def bitsetBody (data : List UInt8) (desc : StructureDesc) (bitset : List UInt8) : DecodeM (DecodedValue × Nat) :=
  if ¬ hasFieldBits bitset ∧ bitAt bitset 0 then do
    match ← attempt isHostile (dec.decodeStructure data desc) with
    | some result => pure result
    | none => dec.bitsetWalk data desc bitset
  else dec.bitsetWalk data desc bitset

def decodeStructureWithBitsetBody (data : List UInt8) (desc : StructureDesc) (bitset : List UInt8) :
    DecodeM (DecodedValue × Nat) :=
  dec.nodeBudgetScope data.length (dec.bitsetBody data desc bitset)

def decodeStructureWithBitset (data : List UInt8) (desc : StructureDesc) : DecodeM (DecodedValue × Nat) :=
  if data.isEmpty then throw (.truncated 1 0)
  else do
    let (bitsetSize, offset) ← dec.decodeSize data
    if bitsetSize = 0 ∨ data.length < offset + bitsetSize then pure (.structure [], offset)
    else do
      let bitset := (data.drop offset).take bitsetSize
      let (value, consumed) ← dec.decodeStructureWithBitsetBody (data.drop (offset + bitsetSize)) desc bitset
      pure (value, offset + bitsetSize + consumed)

end PvdDecoder

structure MonitorUpdate where
  value : DecodedValue
  changed : List UInt8
  overrun : List UInt8
  consumed : Nat
  paths : List String

mutual

/-- The dotted paths of the fields in bit order; an empty outer path adds no dot. -/
def flattenFieldPaths (outer : String) : List (FieldDescOf FieldType) → List String
  | [] => []
  | f :: fs =>
    let path := if outer.isEmpty then f.name else outer ++ "." ++ f.name
    path :: nestedPaths path f.fieldType ++ flattenFieldPaths outer fs

def nestedPaths (path : String) : FieldType → List String
  | .structure desc => flattenFieldPaths path desc.fields
  | _ => []

end

def bitPaths (desc : StructureDesc) : List String := "<whole structure>" :: flattenFieldPaths "" desc.fields

namespace PvdDecoder

variable (dec : PvdDecoder)

/-- A size-prefixed bitset at `offset`, and the offset just past it. -/
def readBitset (data : List UInt8) (offset : Nat) : Except DecodeError (List UInt8 × Nat) :=
  if data.length < offset then .error (.truncated offset data.length)
  else do
    let (size, consumed) ← decodeSizePrefixed (data.drop offset) dec.isBe
    let start := offset + consumed
    if data.length < start + size then .error (.truncated (start + size) data.length)
    else .ok ((data.drop start).take size, start + size)

/-- The changed bitset, the values, the overrun bitset. -/
def decodeMonitorUpdate (data : List UInt8) (desc : StructureDesc) : DecodeM MonitorUpdate := do
  let (changed, offset) ← ofExcept (dec.readBitset data 0)
  let (value, consumed) ← dec.decodeStructureWithBitsetBody (data.drop offset) desc changed
  let (overrun, next) ← ofExcept (dec.readBitset data (offset + consumed))
  pure ⟨value, changed, overrun, next, bitPaths desc⟩

end PvdDecoder

end Spvirit
