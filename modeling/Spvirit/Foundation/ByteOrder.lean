import Mathlib.Tactic

/-! Fixed-width naturals as byte strings, in either byte order. -/

namespace ByteOrder

/-- The `width` low-order bytes of a natural, least significant first. -/
def leBytes : Nat → Nat → List UInt8
  | 0, _ => []
  | width + 1, n => UInt8.ofNat n :: leBytes width (n / 256)

/-- The natural whose base-256 digits are the given bytes, least significant first. -/
def ofLeBytes : List UInt8 → Nat
  | [] => 0
  | b :: bs => b.toNat + 256 * ofLeBytes bs

def toBytes (isBe : Bool) (width n : Nat) : List UInt8 :=
  if isBe then (leBytes width n).reverse else leBytes width n

def ofBytes (isBe : Bool) (bytes : List UInt8) : Nat :=
  if isBe then ofLeBytes bytes.reverse else ofLeBytes bytes

@[simp] theorem leBytes_length (width n : Nat) : (leBytes width n).length = width := by
  induction width generalizing n with
  | zero => rfl
  | succ width ih => simp [leBytes, ih]

@[simp] theorem toBytes_length (isBe : Bool) (width n : Nat) : (toBytes isBe width n).length = width := by
  cases isBe <;> simp [toBytes]

theorem ofLeBytes_leBytes {width n : Nat} (fits : n < 256 ^ width) : ofLeBytes (leBytes width n) = n := by
  induction width generalizing n with
  | zero => simp [leBytes, ofLeBytes] at fits ⊢; omega
  | succ width ih =>
    have rest : n / 256 < 256 ^ width := Nat.div_lt_of_lt_mul (by rwa [pow_succ'] at fits)
    simp only [leBytes, ofLeBytes, ih rest, UInt8.toNat_ofNat']
    omega

theorem ofBytes_toBytes {isBe : Bool} {width n : Nat} (fits : n < 256 ^ width) :
    ofBytes isBe (toBytes isBe width n) = n := by
  cases isBe <;> simp [ofBytes, toBytes, ofLeBytes_leBytes fits]

theorem ofLeBytes_lt (bytes : List UInt8) : ofLeBytes bytes < 256 ^ bytes.length := by
  induction bytes with
  | nil => simp [ofLeBytes]
  | cons b bs ih =>
    have low := b.toNat_lt
    simp only [ofLeBytes, List.length_cons, pow_succ]
    omega

theorem ofBytes_lt (isBe : Bool) (bytes : List UInt8) : ofBytes isBe bytes < 256 ^ bytes.length := by
  cases isBe
  · exact ofLeBytes_lt bytes
  · simpa [ofBytes] using ofLeBytes_lt bytes.reverse

end ByteOrder
