import Spvirit.Client.Json
import Spvirit.Codec.EncodeValue

/-! Conversion of the values of a client's PUT into the JSON of the PUT upstream. -/

namespace Spvirit

namespace JsonNumber

/-- Only a negative number is kept as a signed one. -/
def ofI64 (x : Int64) : JsonNumber := if x < 0 then .negInt x else .posInt x.toUInt64

def ofU64 (x : UInt64) : JsonNumber := .posInt x

theorem asI64_ofI64 (x : Int64) : (ofI64 x).asI64 = some x := by
  unfold ofI64
  split_ifs with negative
  · rfl
  · have small := x.toNat_toUInt64_of_le (Int64.not_lt.mp negative)
    have high := x.toInt_lt
    have low : (0 : Int64).toInt ≤ x.toInt := Int64.le_iff_toInt_le.mp (Int64.not_lt.mp negative)
    rw [Int64.toInt_zero] at low
    have bound : x.toUInt64.toNat < 2 ^ 63 := by
      rw [small, Int64.toNatClampNeg]
      omega
    rw [asI64, if_pos bound, Int64.toInt64_toUInt64]

theorem integer_ofI64 (x : Int64) : (ofI64 x).integer = some x.toInt := by
  unfold ofI64
  split_ifs with negative
  · rfl
  · have small := x.toNat_toUInt64_of_le (Int64.not_lt.mp negative)
    have low : (0 : Int64).toInt ≤ x.toInt := Int64.le_iff_toInt_le.mp (Int64.not_lt.mp negative)
    rw [Int64.toInt_zero] at low
    rw [integer, small, Int64.toNatClampNeg, Int.toNat_of_nonneg low]

end JsonNumber

namespace Json

/-- A map has one entry for a name: the last one inserted. -/
def insert : List (String × Json) → String → Json → List (String × Json)
  | [], name, j => [(name, j)]
  | e :: es, name, j => if e.1 = name then (name, j) :: es else e :: insert es name j

variable {name : String} {values : List (String × Json)}

theorem insert_new {j : Json} (new : ∀ e ∈ values, e.1 ≠ name) :
    insert values name j = values ++ [(name, j)] := by
  induction values with
  | nil => rfl
  | cons e es ih =>
    obtain ⟨other, others⟩ := List.forall_mem_cons.mp new
    rw [insert, if_neg other, ih others, List.cons_append]

theorem get_none (missing : ∀ e ∈ values, e.1 ≠ name) :
    get values name = none := by
  rw [get, List.find?_eq_none.mpr (by simpa using missing)]
  rfl

theorem get_cons_other {e : String × Json} (other : e.1 ≠ name) :
    get (e :: values) name = get values name := by
  rw [get, get, List.find?_cons_of_neg (by simpa using other)]

theorem get_cons_self {j : Json} :
    get ((name, j) :: values) name = some j := by
  simp [get]

end Json

namespace Gateway

/-- JSON has no number for an infinity or a NaN. -/
def finiteF64ToJson (x : F64) : Json := if finite : x.finite = true then .number (.float x finite) else .null

section

variable (widen : F32 → F64)

mutual

def decodedToJson : DecodedValue → Except String Json
  | .null => .ok .null
  | .boolean b => .ok (.bool b)
  | .int8 x => .ok (.number (.ofI64 x.toInt64))
  | .int16 x => .ok (.number (.ofI64 x.toInt64))
  | .int32 x => .ok (.number (.ofI64 x.toInt64))
  | .int64 x => .ok (.number (.ofI64 x))
  | .uint8 x => .ok (.number (.ofU64 x.toUInt64))
  | .uint16 x => .ok (.number (.ofU64 x.toUInt64))
  | .uint32 x => .ok (.number (.ofU64 x.toUInt64))
  | .uint64 x => .ok (.number (.ofU64 x))
  | .float32 x => .ok (finiteF64ToJson (widen x))
  | .float64 x => .ok (finiteF64ToJson x)
  | .string s => .ok (.string s)
  | .array items => do
    let out ← itemsToJson items
    pure (.array out)
  | .structure fields => do
    let map ← fieldsToJson fields []
    pure (.object map)
  | .raw _ => .error "cannot proxy an unresolved union/any (DecodedValue::Raw) on put"

def itemsToJson : List DecodedValue → Except String (List Json)
  | [] => .ok []
  | item :: items => do
    let head ← decodedToJson item
    let tail ← itemsToJson items
    pure (head :: tail)

def fieldsToJson : List (String × DecodedValue) → List (String × Json) → Except String (List (String × Json))
  | [], map => .ok map
  | f :: fs, map => do
    let j ← decodedToJson f.2
    fieldsToJson fs (Json.insert map f.1 j)

end

end

end Gateway

end Spvirit
