import Spvirit.Payload.Monitor
import Spvirit.Payload.View

/-! Narrowing of a descriptor to requested paths, and the encoding of a payload
against the narrowed descriptor. -/

namespace Spvirit

/-- The requested paths as a tree. A node with `selectAll` stands for all that is below it. -/
inductive PathNode where
  | node (selectAll : Bool) (children : List (String × PathNode))

namespace PathNode

def selectAll : PathNode → Bool
  | .node all _ => all

def children : PathNode → List (String × PathNode)
  | .node _ children => children

def empty : PathNode := .node false []

def child (n : PathNode) (name : String) : Option PathNode :=
  (n.children.find? fun c => c.1 = name).map Prod.snd

/-- The first child of that name is changed; a missing one is appended. -/
def updateChild (name : String) (change : PathNode → PathNode) : List (String × PathNode) → List (String × PathNode)
  | [] => [(name, change empty)]
  | c :: cs => if c.1 = name then (c.1, change c.2) :: cs else c :: updateChild name change cs

/-- The last part of a path selects all and forgets what was selected below. -/
def select : List String → PathNode → PathNode
  | [], n => n
  | part :: rest, .node all children =>
    .node all (updateChild part (fun c => if rest.isEmpty then .node true [] else select rest c) children)

end PathNode

def pathParts (path : String) : List String := (path.splitOn ".").filter fun part => !part.isEmpty

def buildPathTree (paths : List String) : PathNode := paths.foldl (fun n p => n.select (pathParts p)) .empty

mutual

/-- The fields some requested path meets, in the order of the descriptor. -/
def pruneFields : List (FieldDescOf FieldType) → PathNode → List FieldDesc
  | [], _ => []
  | f :: fs, n =>
    match n.child f.name with
    | none => pruneFields fs n
    | some c =>
      if c.selectAll then f :: pruneFields fs n
      else
        match pruneType f.fieldType c with
        | some ft => ⟨f.name, ft⟩ :: pruneFields fs n
        | none => pruneFields fs n

/-- A structure or structure array stays if something below it does; a leaf has nothing below it. -/
def pruneType : FieldType → PathNode → Option FieldType
  | .structure inner, n =>
    if (pruneFields inner.fields n).isEmpty then none else some (.structure ⟨inner.structId, pruneFields inner.fields n⟩)
  | .structureArray inner, n =>
    if (pruneFields inner.fields n).isEmpty then none
    else some (.structureArray ⟨inner.structId, pruneFields inner.fields n⟩)
  | _, _ => none

end

def pruneStructure (desc : StructureDesc) (n : PathNode) : StructureDesc :=
  if n.selectAll then desc else ⟨desc.structId, pruneFields desc.fields n⟩

/-- No requested path stands for all of the descriptor. -/
def filterStructureDesc (desc : StructureDesc) (requested : List String) : StructureDesc :=
  if requested.isEmpty then desc else pruneStructure desc (buildPathTree requested)

mutual

def fieldsEqual : List (FieldDescOf FieldType) → List (FieldDescOf FieldType) → Bool
  | [], [] => true
  | x :: xs, y :: ys => x.name = y.name && fieldTypeEqual x.fieldType y.fieldType && fieldsEqual xs ys
  | _, _ => false

/-- Unions are compared by the number of their fields only. -/
def fieldTypeEqual : FieldType → FieldType → Bool
  | .scalar x, .scalar y => x = y
  | .scalarArray x, .scalarArray y => x = y
  | .string, .string => true
  | .stringArray, .stringArray => true
  | .structure x, .structure y => x.structId = y.structId && fieldsEqual x.fields y.fields
  | .structureArray x, .structureArray y => x.structId = y.structId && fieldsEqual x.fields y.fields
  | .variant, .variant => true
  | .variantArray, .variantArray => true
  | .boundedString x, .boundedString y => x = y
  | .union x, .union y => x.length = y.length
  | .unionArray x, .unionArray y => x.length = y.length
  | _, _ => false

end

def structureDescEqual (a b : StructureDesc) : Bool := a.structId = b.structId && fieldsEqual a.fields b.fields

/-- Identifier and number of fields, known without building the descriptor. -/
def ntPayloadShapeMatches (p : NtPayload) (desc : StructureDesc) : Bool :=
  let shape : Option String × Nat :=
    match p with
    | .scalar _ => (some "epics:nt/NTScalar:1.0", 6)
    | .scalarArray _ => (some "epics:nt/NTScalarArray:1.0", 5)
    | .table _ => (some "epics:nt/NTTable:1.0", 5)
    | .ndArray _ => (some "epics:nt/NTNDArray:1.0", 12)
    | .enum _ => (some "epics:nt/NTEnum:1.0", 3)
    | .generic structId fields => (if structId.isEmpty then none else some structId, fields.length)
  desc.structId = shape.1 && desc.fields.length = shape.2

section

variable (isBe : Bool)

mutual

def projectFields (value : View) : List (FieldDescOf FieldType) → Nat → List UInt8
  | [], _ => []
  | target :: ts, hint =>
    match value.field target.name hint with
    | (some sub, next) => projectField sub target.fieldType ++ projectFields value ts next
    | (none, next) => projectFields value ts next

def projectField (sub : View) : FieldType → List UInt8
  | .structure inner => if sub.kind ≠ .struct then pushView isBe sub else projectFields sub inner.fields 0
  | _ => pushView isBe sub

end

def pushViewProjected (value : View) (desc : StructureDesc) : List UInt8 := projectField isBe value (.structure desc)

/-- The full encoding unless the descriptor is narrower than the payload's own. -/
def encodeNtPayloadValuesForDesc (clock : Int64 × Int32) (p : NtPayload) (desc : StructureDesc) : List UInt8 :=
  if ntPayloadShapeMatches p desc ∧ structureDescEqual (ntPayloadDesc p) desc then pushNtPayloadFull clock isBe p
  else pushViewProjected isBe (.ofPayload clock p) desc

def encodeStructureBitset (desc : StructureDesc) : List UInt8 := pushAllOnesBitset (1 + countStructureFields desc) isBe

def encodeNtPayloadFiltered (clock : Int64 × Int32) (p : NtPayload) (desc : StructureDesc) : List UInt8 × List UInt8 :=
  (encodeStructureBitset isBe desc, encodeNtPayloadValuesForDesc isBe clock p desc)

end

def encodeMonitorDataResponseFiltered (clock : Int64 × Int32) (ioid : UInt32) (subcmd : UInt8) (p : NtPayload)
    (desc : StructureDesc) (version : UInt8) (isBe : Bool) : List UInt8 :=
  let (bitset, values) := encodeNtPayloadFiltered isBe clock p desc
  monitorDataFrame ioid subcmd (bitset ++ values) version isBe

end Spvirit
