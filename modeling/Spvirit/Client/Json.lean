import Spvirit.Codec.Types

/-! JSON values as the client takes them, and the integers their numbers stand for. -/

namespace Spvirit

namespace F64

/-- The magnitude of a finite number as a fraction whose denominator is a power of two. -/
def fraction (x : F64) : Nat × Nat :=
  let exponent := x.bits.toNat / 2 ^ 52 % 2 ^ 11
  let mantissa := x.bits.toNat % 2 ^ 52 + if exponent = 0 then 0 else 2 ^ 52
  let scale := max exponent 1
  if 1075 ≤ scale then (mantissa * 2 ^ (scale - 1075), 1) else (mantissa, 2 ^ (1075 - scale))

def finite (x : F64) : Bool := x.bits.toNat / 2 ^ 52 % 2 ^ 11 ≠ 2 ^ 11 - 1

def signed (x : F64) (magnitude : Nat) : Int := if x.bits.toNat < 2 ^ 63 then magnitude else -magnitude

/-- The integer part. -/
def trunc (x : F64) : Int := x.signed (x.fraction.1 / x.fraction.2)

/-- `x.fract().abs() > f64::EPSILON`. -/
def fractExceedsEpsilon (x : F64) : Bool := x.fraction.2 < x.fraction.1 % x.fraction.2 * 2 ^ 52

/-- `x < 0.0`. -/
def negative (x : F64) : Bool := 2 ^ 63 ≤ x.bits.toNat && x.fraction.1 ≠ 0

/-- `x as i64`, which saturates. -/
def asI64 (x : F64) : Int64 := .ofInt (max (-2 ^ 63) (min x.trunc (2 ^ 63 - 1)))

/-- `x as u64`, which saturates. -/
def asU64 (x : F64) : UInt64 := .ofNat (min x.trunc.toNat (2 ^ 64 - 1))

end F64

/-- A number is kept as an integer where it fits one. Only finite floats are numbers. -/
inductive JsonNumber where
  | posInt (n : UInt64)
  | negInt (n : Int64)
  | float (x : F64) (finite : x.finite = true)

namespace JsonNumber

def asI64 : JsonNumber → Option Int64
  | .posInt n => if n.toNat < 2 ^ 63 then some n.toInt64 else none
  | .negInt n => some n
  | .float _ _ => none

def asU64 : JsonNumber → Option UInt64
  | .posInt n => some n
  | .negInt _ | .float _ _ => none

def integer : JsonNumber → Option Int
  | .posInt n => some n.toNat
  | .negInt n => some n.toInt
  | .float x _ => if x.fraction.1 % x.fraction.2 = 0 then some x.trunc else none

end JsonNumber

inductive Json where
  | null
  | bool (b : Bool)
  | number (n : JsonNumber)
  | string (s : String)
  | array (items : List Json)
  | object (fields : List (String × Json))

namespace Json

/-- The entry of a map. -/
def get (values : List (String × Json)) (name : String) : Option Json :=
  (values.find? fun e => e.1 = name).map Prod.snd

end Json

/-- Conversions between numbers and texts, and of numbers to floats. -/
structure JsonOps where
  parseI64 : String → Option Int64
  parseU64 : String → Option UInt64
  parseF64 : String → Option F64
  asF64 : JsonNumber → F64
  narrow : F64 → F32
  showF64 : F64 → String
  text : Json → String

end Spvirit
