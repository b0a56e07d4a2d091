import Mathlib.Tactic

/-! Magnitudes of doubles: the order of their bit patterns, and rounding to the nearest. -/

namespace Binary64

/-- The exact value of a magnitude, in units of the least positive number. The bits are the
exponent followed by the fraction. -/
def units (m : Nat) : Nat :=
  if m < 2 ^ 52 then m else (2 ^ 52 + m % 2 ^ 52) * 2 ^ (m / 2 ^ 52 - 1)

/-- The nearest magnitude, and of two equally near the even one. -/
def nearest (u : Nat) : Nat :=
  if u < 2 ^ 53 then u
  else
    let shift := u.log2 - 52
    let quotient := u / 2 ^ shift
    let remainder := u % 2 ^ shift
    let up := 2 ^ shift < 2 * remainder ∨ 2 * remainder = 2 ^ shift ∧ quotient % 2 = 1
    shift * 2 ^ 52 + quotient + if up then 1 else 0

theorem units_scaled {k q : Nat} (low : 2 ^ 52 ≤ q) (high : q < 2 ^ 53) :
    units (k * 2 ^ 52 + q) = q * 2 ^ k := by
  have quotient : (k * 2 ^ 52 + q) / 2 ^ 52 = k + 1 := by omega
  have remainder : (k * 2 ^ 52 + q) % 2 ^ 52 = q - 2 ^ 52 := by omega
  rw [units, if_neg (by omega), quotient, remainder, Nat.add_sub_cancel, Nat.add_sub_cancel' low]

theorem units_of_small {m : Nat} (small : m < 2 ^ 53) : units m = m := by
  by_cases subnormal : m < 2 ^ 52
  · rw [units, if_pos subnormal]
  · simpa using @units_scaled 0 m (by omega) small

theorem exists_scaled {m : Nat} (normal : 2 ^ 52 ≤ m) :
    ∃ k q, 2 ^ 52 ≤ q ∧ q < 2 ^ 53 ∧ m = k * 2 ^ 52 + q :=
  ⟨m / 2 ^ 52 - 1, m % 2 ^ 52 + 2 ^ 52, by omega, by omega, by omega⟩

/-- The next magnitude has the next significand, or the least significand of the next exponent. -/
theorem units_succ {k q : Nat} (low : 2 ^ 52 ≤ q) (high : q < 2 ^ 53) :
    units (k * 2 ^ 52 + q + 1) = (q + 1) * 2 ^ k := by
  by_cases last : q + 1 < 2 ^ 53
  · rw [Nat.add_assoc, units_scaled (by omega) last]
  · have top : q + 1 = 2 ^ 53 := by omega
    have carried : k * 2 ^ 52 + q + 1 = (k + 1) * 2 ^ 52 + 2 ^ 52 := by omega
    rw [carried, units_scaled (le_refl _) (by norm_num), top]
    ring

theorem units_strictMono : StrictMono units := by
  refine strictMono_nat_of_lt_succ fun m => ?_
  by_cases small : m + 1 < 2 ^ 53
  · rw [units_of_small small, units_of_small (by omega)]
    exact Nat.lt_succ_self m
  · obtain ⟨k, q, low, high, rfl⟩ := exists_scaled (by omega : 2 ^ 52 ≤ m)
    rw [units_succ low high, units_scaled low high]
    exact Nat.mul_lt_mul_of_pos_right (Nat.lt_succ_self q) (by positivity)

/-- The exact value lies between two neighbours, and the nearest is one of them. -/
theorem nearest_between (u : Nat) : ∃ m, units m ≤ u ∧ u < units (m + 1) ∧
    (nearest u = m ∨ nearest u = m + 1 ∧ units m < u) := by
  by_cases small : u < 2 ^ 53
  · have exact : units u = u := units_of_small small
    exact ⟨u, exact.le, exact.symm.trans_lt (units_strictMono (Nat.lt_succ_self u)), Or.inl (if_pos small)⟩
  have nonzero : u ≠ 0 := by omega
  obtain ⟨k, exponent⟩ : ∃ k, u.log2 = k + 52 := by
    have least : 53 ≤ u.log2 := (Nat.le_log2 nonzero).mpr (by omega)
    exact ⟨u.log2 - 52, by omega⟩
  have positive : 0 < 2 ^ k := by positivity
  have low : 2 ^ 52 ≤ u / 2 ^ k := by
    rw [Nat.le_div_iff_mul_le positive, ← pow_add, add_comm, ← exponent]
    exact Nat.log2_self_le nonzero
  have high : u / 2 ^ k < 2 ^ 53 := by
    rw [Nat.div_lt_iff_lt_mul positive, ← pow_add, add_comm, ← Nat.log2_lt nonzero, exponent]
    exact Nat.lt_succ_self _
  have parts : u / 2 ^ k * 2 ^ k + u % 2 ^ k = u := by
    rw [Nat.mul_comm]
    exact Nat.div_add_mod u (2 ^ k)
  have rest : u % 2 ^ k < 2 ^ k := Nat.mod_lt u positive
  refine ⟨k * 2 ^ 52 + u / 2 ^ k, ?_, ?_, ?_⟩
  · rw [units_scaled low high]
    exact Nat.div_mul_le_self u (2 ^ k)
  · rw [units_succ low high, add_mul, one_mul]
    omega
  · simp only [nearest, if_neg small, exponent, Nat.add_sub_cancel]
    split_ifs with up
    · have left : 0 < u % 2 ^ k := by omega
      refine Or.inr ⟨rfl, ?_⟩
      rw [units_scaled low high]
      omega
    · exact Or.inl (Nat.add_zero _)

/-- Rounding does not pass a magnitude above the exact value. -/
theorem nearest_le {u m : Nat} (below : u ≤ units m) : nearest u ≤ m := by
  obtain ⟨low, least, _, same | ⟨same, strict⟩⟩ := nearest_between u
  · rw [same]
    exact units_strictMono.le_iff_le.mp (least.trans below)
  · rw [same]
    exact units_strictMono.lt_iff_lt.mp (strict.trans_le below)

/-- Rounding does not pass a magnitude below the exact value. -/
theorem le_nearest {u m : Nat} (above : units m ≤ u) : m ≤ nearest u := by
  obtain ⟨low, _, next, same⟩ := nearest_between u
  have le : m ≤ low := Nat.lt_succ_iff.mp (units_strictMono.lt_iff_lt.mp (above.trans_lt next))
  omega

end Binary64
