import Spvirit.Foundation.Binary64
import Spvirit.Codec.EncodeValue

/-! Arithmetic and comparison of double-precision numbers. -/

namespace Spvirit.F64

def infinite : Nat := 0x7FF0000000000000

def magnitude (x : F64) : Nat := x.bits.toNat % 2 ^ 63

def isNegative (x : F64) : Bool := 2 ^ 63 ≤ x.bits.toNat

/-- The place of a number in the order; the two zeros share one. -/
def rank (x : F64) : Int := if x.isNegative then -x.magnitude else x.magnitude

def le (x y : F64) : Bool := !x.isNan && !y.isNan && x.rank ≤ y.rank
def lt (x y : F64) : Bool := !x.isNan && !y.isNan && x.rank < y.rank

def ofMagnitude (negative : Bool) (m : Nat) : F64 := ⟨.ofNat (m + if negative then 2 ^ 63 else 0)⟩

def nan : F64 := ⟨0x7FF8000000000000⟩

/-- The number nearest to an exact value in units of the least positive number. A value
too large for any finite number becomes infinite. -/
def ofUnits (negative : Bool) (u : Nat) : F64 := ofMagnitude negative (min (Binary64.nearest u) infinite)

/-- The exact value of a finite number, in units of the least positive number. -/
def exact (x : F64) : Int := if x.isNegative then -Binary64.units x.magnitude else Binary64.units x.magnitude

def ofExact (v : Int) : F64 := ofUnits (v < 0) v.natAbs

def isInfinite (x : F64) : Bool := x.magnitude = infinite

def neg (x : F64) : F64 := ofMagnitude (!x.isNegative) x.magnitude

def abs (x : F64) : F64 := ofMagnitude false x.magnitude

/-- The sign of a zero sum is negative only for two negative zeros. -/
def add (x y : F64) : F64 :=
  if x.isNan || y.isNan then nan
  else if x.isInfinite then if y.isInfinite && x.isNegative != y.isNegative then nan else x
  else if y.isInfinite then y
  else if x.exact + y.exact = 0 then ofMagnitude (x.isNegative && y.isNegative) 0
  else ofExact (x.exact + y.exact)

def sub (x y : F64) : F64 := add x y.neg

/-- An integer as the nearest number. -/
def ofInt (v : Int) : F64 := ofExact (v * 2 ^ 1074)

/-- `x.round() as i32`: halves away from zero, and the cast saturates. -/
def roundI32 (x : F64) : Int32 :=
  if x.isNan then 0
  else
    let rounded : Int := ((Binary64.units x.magnitude + 2 ^ 1073) / 2 ^ 1074 : Nat)
    .ofInt (max (-2 ^ 31) (min (if x.isNegative then -rounded else rounded) (2 ^ 31 - 1)))

end Spvirit.F64
