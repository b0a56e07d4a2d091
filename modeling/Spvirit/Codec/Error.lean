import Mathlib.Tactic

namespace Spvirit

/-- Everything that can go wrong decoding a PVA frame or a PVD value. -/
inductive DecodeError where
  | truncated (needed available : Nat)
  | arrayTooLarge (kind : String) (count limit : Nat)
  | countExceedsBuffer (count minBytes available : Nat)
  | messageTooLarge (total limit : Nat)
  | unexpectedSegment (flags : UInt8)
  | segmentInterrupted (expected got : UInt8)
  | segmentCommandMismatch (expected got : UInt8)
  | unknownTypeTag (tag : UInt8)
  | unresolvedTypeId (id : UInt16)
  | unknownUnionSelector (selector len : Nat)
  | depthExceeded (depth limit : Nat)
  | malformed (what : String)
  deriving DecidableEq, Repr

end Spvirit
