import Spvirit.Codec.Prefixed
import Spvirit.Codec.Types
import Spvirit.Foundation.Fallible

/-! The decoder's limits, its cells and the guards on depth and node budget. -/

namespace Spvirit

structure DecodeLimits where
  maxScalarArray : Nat
  maxStringArray : Nat
  maxStructArray : Nat
  maxUnionArray : Nat
  maxVariantArray : Nat
  maxStructFields : Nat
  maxDepth : Nat
  deriving DecidableEq, Repr

def DecodeLimits.default : DecodeLimits where
  maxScalarArray := 4000000
  maxStringArray := 65536
  maxStructArray := 65536
  maxUnionArray := 65536
  maxVariantArray := 65536
  maxStructFields := 65536
  maxDepth := 32

def nodeBudgetExceeded : String := "introspection expands past the node budget"
def nodesPerByte : Nat := 16
def maxDecodeNodes : Nat := 1048576

def nodeCeiling (maxStructFields inputLen : Nat) : Nat :=
  max (min (maxStructFields + nodesPerByte * inputLen) maxDecodeNodes) maxStructFields

/-- The errors that mean a hostile input rather than a short or garbled one. -/
def isHostile : DecodeError → Bool
  | .depthExceeded _ _ => true
  | .malformed what => what = nodeBudgetExceeded
  | _ => false

/-- A history of the types one top-level call has resolved. The decoder never
reads it: type nodes read from the wire, stored trees spliced in for a
reference, and the trees of the variants it has decoded. -/
structure Resolved where
  literals : Nat
  stored : List FieldType
  variants : List FieldType

def Resolved.nothing : Resolved := ⟨0, [], []⟩

/-- The cells of a decoder. A registry entry carries the height and the node
count of its type. -/
structure Cells where
  registry : UInt16 → Option (FieldType × Nat × Nat)
  depth : Nat
  nodes : Nat
  nodeLimit : Nat
  budgetScope : Nat
  resolved : Resolved

abbrev DecodeM := Fallible Cells DecodeError

structure PvdDecoder where
  isBe : Bool
  limits : DecodeLimits
  deriving DecidableEq, Repr

namespace PvdDecoder

variable (dec : PvdDecoder) {α : Type}

def new (isBe : Bool) : PvdDecoder := ⟨isBe, .default⟩

/-- The cells of a decoder just built. -/
def fresh : Cells := ⟨fun _ => none, 0, 0, dec.limits.maxStructFields, 0, .nothing⟩

def decodeSize (data : List UInt8) : DecodeM (Nat × Nat) := .ofExcept (decodeSizePrefixed data dec.isBe)

def decodeString (data : List UInt8) : DecodeM (String × Nat) := .ofExcept (decodeStringPrefixed data dec.isBe)

/-- One level of recursion for the time of the call, or failure. -/
def enter (m : DecodeM α) : DecodeM α := fun c =>
  if dec.limits.maxDepth < c.depth + 1 then (.error (.depthExceeded (c.depth + 1) dec.limits.maxDepth), c)
  else
    let (r, c') := m { c with depth := c.depth + 1 }
    (r, { c' with depth := c'.depth - 1 })

/-- A stored type of `height` levels spliced in at the current depth must stay within the limit. -/
def checkResolvedHeight (height : Nat) : DecodeM Unit := fun c =>
  let depth := c.depth + height - 1
  if dec.limits.maxDepth < depth then (.error (.depthExceeded depth dec.limits.maxDepth), c) else (.ok (), c)

/-- The outermost scope starts a fresh budget sized to its input; nested
calls are charged to the decode in progress. -/
def nodeBudgetScope (inputLen : Nat) (m : DecodeM α) : DecodeM α := fun c =>
  let c :=
    if c.budgetScope = 0 then
      { c with nodes := 0, nodeLimit := nodeCeiling dec.limits.maxStructFields inputLen }
    else c
  let (r, c') := m { c with budgetScope := c.budgetScope + 1 }
  (r, { c' with budgetScope := c'.budgetScope - 1 })

def chargeNodes (n : Nat) : DecodeM Unit := fun c =>
  let used := c.nodes + n
  if c.nodeLimit < used then (.error (.malformed nodeBudgetExceeded), { c with nodes := used })
  else (.ok (), { c with nodes := used })

def note (f : Resolved → Resolved) : DecodeM Unit := .modify fun c => { c with resolved := f c.resolved }

def noteLiteral : DecodeM Unit := note fun r => { r with literals := r.literals + 1 }

def noteStored (ft : FieldType) : DecodeM Unit := note fun r => { r with stored := r.stored ++ [ft] }

def noteVariant (ft : FieldType) : DecodeM Unit := note fun r => { r with variants := r.variants ++ [ft] }

/-- Each entry carries its type's height and node count. -/
def register (key : UInt16) (ft : FieldType) : DecodeM Unit :=
  .modify fun c => { c with registry := Function.update c.registry key (some (ft, typeHeight ft, typeNodes ft)) }

/-- What an element count may not exceed: its limit, and the bytes that remain. -/
def checkArrayCount (count minElem available : Nat) (kind : String) (limit : Nat) : Except DecodeError Unit :=
  if limit < count then .error (.arrayTooLarge kind count limit)
  else if available < count * minElem then .error (.countExceedsBuffer count (count * minElem) available)
  else .ok ()

end PvdDecoder

end Spvirit
