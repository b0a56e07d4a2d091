import Spvirit.Payload.ViewRefines

/-! Sparse deltas between two payloads: the walk over their views, and the walk over their trees. -/

namespace Spvirit

/-- A walk in bit order. The sink takes the changed flags and the bytes of the
changed leaves; without one the walk stops at the first change. -/
structure DeltaWalk where
  sink : Option (List Bool × List UInt8)
  bit : Nat

namespace DeltaWalk

variable (isBe : Bool)

def fieldIn (v : Option View) (name : String) (hint : Nat) : Option View × Nat :=
  match v with
  | some v => v.field name hint
  | none => (none, hint)

def leafChanged : Option View → Option View → Bool
  | some a, some b => !viewsEqual a b
  | none, none => false
  | _, _ => true

def leaf (bit : Nat) (p n : Option View) (w : DeltaWalk) : Bool × DeltaWalk :=
  let changed := leafChanged p n
  if changed then
    match w.sink with
    | some (bits, values) => (changed, { w with sink := some (bits.set bit true, values ++ (n.map (pushView isBe)).getD []) })
    | none => (changed, w)
  else (changed, w)

mutual

def level : List (FieldDescOf FieldType) → Option View → Option View → Nat → Nat → DeltaWalk → Bool × DeltaWalk
  | [], _, _, _, _, w => (false, w)
  | f :: fs, prev, next, prevHint, nextHint, w =>
    let bit := w.bit
    let (p, prevHint) := fieldIn prev f.name prevHint
    let (n, nextHint) := fieldIn next f.name nextHint
    let (changed, w) := node f.fieldType bit p n { w with bit := bit + 1 }
    if changed && w.sink.isNone then (true, w)
    else
      let (any, w) := level fs prev next prevHint nextHint w
      (changed || any, w)

/-- A structure's own bit stays clear; its leaves carry the change. -/
def node : FieldType → Nat → Option View → Option View → DeltaWalk → Bool × DeltaWalk
  | .structure inner, _, p, n, w => level inner.fields p n 0 0 w
  | _, bit, p, n, w => leaf isBe bit p n w

end

end DeltaWalk

section

variable (clock : Int64 × Int32)

/-- The changed bitset and the bytes of the changed leaves, or nothing if none changed. -/
def encodeNtPayloadDelta (prev next : NtPayload) (desc : StructureDesc) (isBe : Bool) : Option (List UInt8 × List UInt8) :=
  let walk : DeltaWalk := ⟨some (List.replicate (1 + countStructureFields desc) false, []), 1⟩
  let (changed, w) := walk.level isBe desc.fields (some (.ofPayload clock prev)) (some (.ofPayload clock next)) 0 0
  if changed then w.sink.map fun (bits, values) => (encodeBitsetFromFlags bits isBe, values) else none

def ntPayloadChangedOnDesc (prev next : NtPayload) (desc : StructureDesc) (isBe : Bool) : Bool :=
  (DeltaWalk.level isBe desc.fields (some (.ofPayload clock prev)) (some (.ofPayload clock next)) 0 0 ⟨none, 1⟩).1

end

def fieldOf (v : DecodedValue) (name : String) (hint : Nat) : Option DecodedValue × Nat :=
  match v with
  | .structure fields => locate fields name hint
  | _ => (none, hint)

def treeLeafChanged : Option DecodedValue → Option DecodedValue → Bool
  | some a, some b => !decodedValuesEqual a b
  | none, none => false
  | _, _ => true

mutual

/-- The flags of the leaves that differ between two trees, with the bit behind the level. -/
def fillChangedBits : List (FieldDescOf FieldType) → DecodedValue → DecodedValue → Nat → Nat → List Bool × Nat →
    Bool × List Bool × Nat
  | [], _, _, _, _, s => (false, s)
  | f :: fs, prev, next, prevHint, nextHint, (bits, idx) =>
    let (p, prevHint) := fieldOf prev f.name prevHint
    let (n, nextHint) := fieldOf next f.name nextHint
    let (changed, s) := fillChangedNode f.fieldType idx p n (bits, idx + 1)
    let (any, s) := fillChangedBits fs prev next prevHint nextHint s
    (changed || any, s)

/-- A structure that is missing counts as one without fields. -/
def fillChangedNode : FieldType → Nat → Option DecodedValue → Option DecodedValue → List Bool × Nat → Bool × List Bool × Nat
  | .structure inner, _, p, n, s =>
    fillChangedBits inner.fields (p.getD (.structure [])) (n.getD (.structure [])) 0 0 s
  | _, this, p, n, (bits, idx) =>
    if treeLeafChanged p n then (true, bits.set this true, idx) else (false, bits, idx)

end

def computeChangedBits (prev next : DecodedValue) (desc : StructureDesc) : Option (List Bool) :=
  let (any, bits, _) := fillChangedBits desc.fields prev next 0 0 (List.replicate (1 + countStructureFields desc) false, 1)
  if any then some bits else none

mutual

/-- The next value of each leaf that differs between two trees, in bit order. -/
def changedLeaves : List (FieldDescOf FieldType) → DecodedValue → DecodedValue → Nat → Nat → List (Option DecodedValue)
  | [], _, _, _, _ => []
  | f :: fs, prev, next, prevHint, nextHint =>
    let (p, prevHint) := fieldOf prev f.name prevHint
    let (n, nextHint) := fieldOf next f.name nextHint
    changedNode f.fieldType p n ++ changedLeaves fs prev next prevHint nextHint

def changedNode : FieldType → Option DecodedValue → Option DecodedValue → List (Option DecodedValue)
  | .structure inner, p, n => changedLeaves inner.fields (p.getD (.structure [])) (n.getD (.structure [])) 0 0
  | _, p, n => if treeLeafChanged p n then [n] else []

end

/-- The bytes of a leaf; one that is missing has none. -/
def leafBytes (isBe : Bool) (leaf : Option DecodedValue) : List UInt8 := (leaf.map (pushDecodedValue isBe)).getD []

end Spvirit
