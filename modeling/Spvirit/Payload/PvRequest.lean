import Spvirit.Foundation.SplitOn
import Spvirit.Payload.FieldSelection
import Spvirit.Wire.Lossy

/-! Requests on the wire: the selected fields as a tree of empty structures, and options behind it. -/

namespace Spvirit

mutual

/-- Each node is a structure of its children, an empty one if it selects all. -/
def pathTreeToFieldDescs : PathNode → List FieldDesc
  | .node _ children => childFieldDescs children

def childFieldDescs : List (String × PathNode) → List FieldDesc
  | [] => []
  | (name, child) :: rest =>
    ⟨name, .structure ⟨none, if child.selectAll then [] else pathTreeToFieldDescs child⟩⟩ :: childFieldDescs rest

end

/-- The option names as strings of `record._options`, if there are any. -/
def optionFields (options : List (String × String)) : List FieldDesc :=
  if options.isEmpty then []
  else
    [⟨"record", .structure ⟨none, [⟨"_options", .structure ⟨none, options.map fun o => ⟨o.1, .string⟩⟩⟩]⟩⟩]

def pvRequestDesc (fields : List String) (options : List (String × String)) : StructureDesc :=
  ⟨none, ⟨"field", .structure ⟨none, pathTreeToFieldDescs (buildPathTree fields)⟩⟩ :: optionFields options⟩

def encodePvRequestWithOptions (fields : List String) (options : List (String × String)) (isBe : Bool) : List UInt8 :=
  0x80 :: encodeStructureDesc isBe (pvRequestDesc fields options) ++ options.flatMap fun o => pushString o.2 isBe

def joined (pre name : String) : String := if pre.isEmpty then name else pre ++ "." ++ name

mutual

def collectPvRequestPaths (pre : String) : List (FieldDescOf FieldType) → List String
  | [] => []
  | f :: fs => collectPvRequestPath (joined pre f.name) f.fieldType ++ collectPvRequestPaths pre fs

def collectPvRequestPath (path : String) : FieldType → List String
  | .structure nested => if nested.fields.isEmpty then [path] else collectPvRequestPaths path nested.fields
  | _ => [path]

end

/-- What a decoder of its own makes of the introspection data of the body. -/
def pvRequestIntrospection (body : List UInt8) (isBe : Bool) : Option StructureDesc :=
  if body.isEmpty then none
  else ((PvdDecoder.new isBe).parseIntrospection body (PvdDecoder.new isBe).fresh).1.toOption

def structureNamed (name : String) (fields : List FieldDesc) : Option StructureDesc :=
  fields.findSome? fun f =>
    match f.fieldType with
    | .structure inner => if f.name = name then some inner else none
    | _ => none

def decodePvRequestFields (body : List UInt8) (isBe : Bool) : Option (List String) := do
  let desc ← pvRequestIntrospection body isBe
  let inner ← structureNamed "field" desc.fields
  let paths := collectPvRequestPaths "" inner.fields
  if paths.isEmpty then none else some paths

def requestOptions (desc : StructureDesc) : Option StructureDesc :=
  desc.fields.findSome? fun f =>
    match f.fieldType with
    | .structure inner => if f.name = "record" then structureNamed "_options" inner.fields else none
    | _ => none

def decodeOptionValues (isBe : Bool) : List FieldDesc → List UInt8 → Option (List (String × String))
  | [], _ => some []
  | f :: fs, cursor =>
    match f.fieldType with
    | .string => do
      let (s, consumed) ← decodeStringLossy cursor isBe
      let others ← decodeOptionValues isBe fs (cursor.drop consumed)
      some ((f.name, s) :: others)
    | _ => none

/-- The values are taken to follow the descriptor as this side would encode it. -/
def decodePvRequestOptions (body : List UInt8) (isBe : Bool) : Option (List (String × String)) := do
  let desc ← pvRequestIntrospection body isBe
  let options ← requestOptions desc
  let valuesStart := 1 + (encodeStructureDesc isBe desc).length
  if body.length < valuesStart then none else decodeOptionValues isBe options.fields (body.drop valuesStart)

end Spvirit
