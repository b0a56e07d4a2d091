import Spvirit.Codec.Prefixed
import Spvirit.Codec.Types

/-! Encoding of type descriptors. -/

namespace Spvirit

variable (isBe : Bool)

/-- The id and the field count that open a structure or union body. -/
def descHeader (structId : Option String) (fieldCount : Nat) : List UInt8 :=
  pushString (structId.getD "") isBe ++ pushSize fieldCount isBe

mutual

def encodeTypeDesc : FieldType → List UInt8
  | .structure desc => 0x80 :: (descHeader isBe desc.structId desc.fields.length ++ encodeFieldDescs desc.fields)
  | .structureArray desc =>
    0x88 :: 0x80 :: (descHeader isBe desc.structId desc.fields.length ++ encodeFieldDescs desc.fields)
  | .union fields => 0x81 :: (descHeader isBe none fields.length ++ encodeFieldDescs fields)
  | .unionArray fields => 0x89 :: 0x81 :: (descHeader isBe none fields.length ++ encodeFieldDescs fields)
  | .variant => [0x82]
  | .variantArray => [0x8A]
  | .boundedString bound => 0x83 :: pushSize bound.toNat isBe
  | .string => [0x60]
  | .stringArray => [0x68]
  | .scalar tc => [tc.toByte]
  | .scalarArray tc => [tc.toByte ||| 0x08]

def encodeFieldDescs : List (FieldDescOf FieldType) → List UInt8
  | [] => []
  | f :: fs => pushString f.name isBe ++ encodeTypeDesc f.fieldType ++ encodeFieldDescs fs

end

def encodeStructureDesc (desc : StructureDesc) : List UInt8 :=
  descHeader isBe desc.structId desc.fields.length ++ encodeFieldDescs isBe desc.fields

end Spvirit
