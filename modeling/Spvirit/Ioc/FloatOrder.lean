import Spvirit.Ioc.Float

/-! Sums of double-precision numbers against other numbers: rounding crosses no number. -/

namespace Spvirit.F64

variable {x y v : F64}

theorem magnitude_lt (x : F64) : x.magnitude < 2 ^ 63 := Nat.mod_lt _ (by decide)

theorem isNan_iff : x.isNan = true ↔ infinite < x.magnitude := by
  have mask : (0x7FFFFFFFFFFFFFFF : UInt64).toNat = 2 ^ 63 - 1 := by decide
  rw [isNan, decide_eq_true_iff, UInt64.lt_iff_toNat_lt, UInt64.toNat_and, mask, Nat.and_two_pow_sub_one_eq_mod]
  rfl

theorem magnitude_ofMagnitude {negative : Bool} {m : Nat} (small : m < 2 ^ 63) :
    (ofMagnitude negative m).magnitude = m ∧ (ofMagnitude negative m).isNegative = negative := by
  cases negative
  · simp only [ofMagnitude, magnitude, isNegative, Bool.false_eq_true, if_false, Nat.add_zero, UInt64.toNat_ofNat']
    exact ⟨by omega, decide_eq_false (by omega)⟩
  · simp only [ofMagnitude, magnitude, isNegative, if_true, UInt64.toNat_ofNat']
    exact ⟨by omega, decide_eq_true (by omega)⟩

theorem rank_ofMagnitude {negative : Bool} {m : Nat} (small : m < 2 ^ 63) :
    (ofMagnitude negative m).rank = if negative then -(m : Int) else m := by
  rw [rank, (magnitude_ofMagnitude small).1, (magnitude_ofMagnitude small).2]

/-- Neither infinite nor not a number. -/
def Finite (x : F64) : Prop := x.magnitude < infinite

theorem Finite.isNan (finite : x.Finite) : x.isNan = false := by
  rw [Bool.eq_false_iff, ne_eq, isNan_iff]
  exact Nat.not_lt.mpr (Nat.le_of_lt finite)

theorem Finite.isInfinite (finite : x.Finite) : x.isInfinite = false := by
  simpa [F64.isInfinite] using Nat.ne_of_lt finite

theorem exact_neg : x.neg.exact = -x.exact := by
  have own := @magnitude_ofMagnitude (!x.isNegative) x.magnitude x.magnitude_lt
  rw [neg, exact, own.1, own.2, exact]
  cases x.isNegative <;> simp

theorem Finite.neg (finite : x.Finite) : x.neg.Finite := by
  rw [Finite, F64.neg, (magnitude_ofMagnitude x.magnitude_lt).1]
  exact finite

theorem rank_ofExact_of_neg {e : Int} (negative : e < 0) :
    (ofExact e).rank = -((min (Binary64.nearest e.natAbs) infinite : Nat) : Int) := by
  have small : min (Binary64.nearest e.natAbs) infinite < 2 ^ 63 := Nat.lt_of_le_of_lt (Nat.min_le_right _ _) (by decide)
  rw [ofExact, ofUnits, rank_ofMagnitude small, if_pos (decide_eq_true negative)]

theorem rank_ofExact_of_nonneg {e : Int} (nonneg : 0 ≤ e) :
    (ofExact e).rank = ((min (Binary64.nearest e.natAbs) infinite : Nat) : Int) := by
  have small : min (Binary64.nearest e.natAbs) infinite < 2 ^ 63 := Nat.lt_of_le_of_lt (Nat.min_le_right _ _) (by decide)
  rw [ofExact, ofUnits, rank_ofMagnitude small, if_neg (by simpa using nonneg)]

theorem units_zero : Binary64.units 0 = 0 := Binary64.units_of_small (by decide)

theorem rank_ofExact_le (finite : v.Finite) {e : Int} (below : e ≤ v.exact) : (ofExact e).rank ≤ v.rank := by
  unfold exact at below
  have bound : v.magnitude < infinite := finite
  by_cases negative : e < 0
  · rw [rank_ofExact_of_neg negative, rank]
    split_ifs at below ⊢
    · have := @Binary64.le_nearest e.natAbs v.magnitude (by omega)
      omega
    · omega
  · rw [rank_ofExact_of_nonneg (by omega), rank]
    split_ifs at below ⊢
    · have none : v.magnitude = 0 := by
        have : Binary64.units v.magnitude = Binary64.units 0 := by
          have := units_zero
          omega
        exact Binary64.units_strictMono.injective this
      have zero : Binary64.nearest e.natAbs ≤ 0 := Binary64.nearest_le (by omega)
      omega
    · have : Binary64.nearest e.natAbs ≤ v.magnitude := Binary64.nearest_le (by omega)
      omega

theorem le_rank_ofExact (finite : v.Finite) {e : Int} (above : v.exact ≤ e) : v.rank ≤ (ofExact e).rank := by
  unfold exact at above
  have bound : v.magnitude < infinite := finite
  by_cases negative : e < 0
  · rw [rank_ofExact_of_neg negative, rank]
    split_ifs at above ⊢
    · have : Binary64.nearest e.natAbs ≤ v.magnitude := Binary64.nearest_le (by omega)
      omega
    · omega
  · rw [rank_ofExact_of_nonneg (by omega), rank]
    split_ifs at above ⊢
    · omega
    · have := @Binary64.le_nearest e.natAbs v.magnitude (by omega)
      omega

/-- The sum of finite numbers, as it compares with others. -/
structure Sums (e : Int) (sum : F64) : Prop where
  isNan : sum.isNan = false
  rank_le : ∀ {v : F64}, v.Finite → e ≤ v.exact → sum.rank ≤ v.rank
  le_rank : ∀ {v : F64}, v.Finite → v.exact ≤ e → v.rank ≤ sum.rank

theorem sums_ofExact (e : Int) : Sums e (ofExact e) := by
  refine ⟨?_, fun finite below => rank_ofExact_le finite below, fun finite above => le_rank_ofExact finite above⟩
  have small : min (Binary64.nearest e.natAbs) infinite < 2 ^ 63 := Nat.lt_of_le_of_lt (Nat.min_le_right _ _) (by decide)
  rw [Bool.eq_false_iff, ne_eq, isNan_iff, ofExact, ofUnits, (magnitude_ofMagnitude small).1]
  exact Nat.not_lt.mpr (Nat.min_le_right _ _)

theorem sums_add (x_finite : x.Finite) (y_finite : y.Finite) : Sums (x.exact + y.exact) (x.add y) := by
  unfold add
  rw [x_finite.isNan, y_finite.isNan, x_finite.isInfinite, y_finite.isInfinite]
  simp only [Bool.or_self, Bool.false_eq_true, if_false]
  split_ifs with zero
  · have rank : (ofMagnitude (x.isNegative && y.isNegative) 0).rank = (ofExact 0).rank := by
      rw [rank_ofMagnitude (by decide), rank_ofExact_of_nonneg (le_refl 0)]
      have none : Binary64.nearest 0 = 0 := Nat.le_zero.mp (Binary64.nearest_le (Nat.zero_le _))
      simp [none]
    have sums := sums_ofExact 0
    rw [zero]
    refine ⟨?_, fun finite below => ?_, fun finite above => ?_⟩
    · rw [Bool.eq_false_iff, ne_eq, isNan_iff, (magnitude_ofMagnitude (by decide)).1]
      decide
    · rw [rank]
      exact sums.rank_le finite below
    · rw [rank]
      exact sums.le_rank finite above
  · exact sums_ofExact _

theorem sums_sub (x_finite : x.Finite) (y_finite : y.Finite) : Sums (x.exact - y.exact) (x.sub y) := by
  have sums := sums_add x_finite y_finite.neg
  rwa [exact_neg, ← Int.sub_eq_add_neg] at sums

theorem le_iff (x_nan : x.isNan = false) (y_nan : y.isNan = false) : x.le y = true ↔ x.rank ≤ y.rank := by
  simp [le, x_nan, y_nan]

theorem Finite.rank_bounds (finite : v.Finite) : -(infinite : Int) ≤ v.rank ∧ v.rank ≤ infinite := by
  have bound : v.magnitude < infinite := finite
  unfold rank
  split_ifs <;> omega

theorem finite_or_infinite (nonneg : (⟨0⟩ : F64).le y = true) :
    y.Finite ∨ y.isNan = false ∧ y.isInfinite = true ∧ y.isNegative = false := by
  simp only [le, Bool.and_eq_true, Bool.not_eq_true', decide_eq_true_eq] at nonneg
  obtain ⟨⟨_, number⟩, above⟩ := nonneg
  have bound : ¬infinite < y.magnitude := by
    rw [← isNan_iff, number]
    exact Bool.false_ne_true
  by_cases infinite : y.isInfinite = true
  · refine Or.inr ⟨number, infinite, ?_⟩
    by_contra negative
    simp only [Bool.not_eq_false] at negative
    simp only [isInfinite, decide_eq_true_eq] at infinite
    have zero : (⟨0⟩ : F64).rank = 0 := by decide
    have below : y.rank = -(F64.infinite : Int) := by rw [rank, if_pos negative, infinite]
    rw [zero, below] at above
    revert above
    decide
  · refine Or.inl ?_
    simp only [isInfinite, decide_eq_true_eq] at infinite
    exact Nat.lt_of_le_of_ne (Nat.not_lt.mp bound) infinite

/-- A difference that is exactly at most a number compares so. -/
theorem sub_le (x_finite : x.Finite) (v_finite : v.Finite) (nonneg : (⟨0⟩ : F64).le y = true)
    (below : y.isInfinite = false → x.exact - y.exact ≤ v.exact) : (x.sub y).le v = true := by
  rcases finite_or_infinite nonneg with finite | ⟨number, infinite, positive⟩
  · have sums := sums_sub x_finite finite
    exact (le_iff sums.isNan v_finite.isNan).mpr (sums.rank_le v_finite (below finite.isInfinite))
  · have own := @magnitude_ofMagnitude (!y.isNegative) y.magnitude y.magnitude_lt
    simp only [isInfinite, decide_eq_true_eq] at infinite
    have negInfinite : y.neg.isInfinite = true := by
      rw [isInfinite, neg, own.1]
      exact decide_eq_true infinite
    have negNumber : y.neg.isNan = false := by
      rw [Bool.eq_false_iff, ne_eq, isNan_iff, neg, own.1, infinite]
      exact lt_irrefl _
    have result : x.sub y = y.neg := by simp [sub, add, x_finite.isNan, negNumber, x_finite.isInfinite, negInfinite]
    have rank : y.neg.rank = -(F64.infinite : Int) := by
      rw [neg, rank_ofMagnitude y.magnitude_lt, positive, infinite]
      rfl
    rw [result, le_iff negNumber v_finite.isNan, rank]
    exact v_finite.rank_bounds.1

theorem le_add (x_finite : x.Finite) (v_finite : v.Finite) (nonneg : (⟨0⟩ : F64).le y = true)
    (above : y.isInfinite = false → v.exact ≤ x.exact + y.exact) : v.le (x.add y) = true := by
  rcases finite_or_infinite nonneg with finite | ⟨number, infinite, positive⟩
  · have sums := sums_add x_finite finite
    exact (le_iff v_finite.isNan sums.isNan).mpr (sums.le_rank v_finite (above finite.isInfinite))
  · have result : x.add y = y := by simp [add, x_finite.isNan, number, x_finite.isInfinite, infinite]
    simp only [isInfinite, decide_eq_true_eq] at infinite
    have rank : y.rank = F64.infinite := by rw [F64.rank, positive, if_neg Bool.false_ne_true, infinite]
    rw [result, le_iff v_finite.isNan number, rank]
    exact v_finite.rank_bounds.2

theorem ofInt_finite (i : Int32) : (ofInt i.toInt).Finite := by
  have low := Int32.le_toInt i
  have high := Int32.toInt_lt i
  let top := 1053 * 2 ^ 52 + 2 ^ 52
  have units : Binary64.units top = 2 ^ 52 * 2 ^ 1053 := Binary64.units_scaled (le_refl _) (by norm_num)
  have power : (2 : Nat) ^ 52 * 2 ^ 1053 = 2 ^ 31 * 2 ^ 1074 := by rw [← pow_add, ← pow_add]
  have scaled (k : Nat) : (i.toInt * 2 ^ k).natAbs ≤ 2 ^ 31 * 2 ^ k := by
    rw [Int.natAbs_mul, Int.natAbs_pow]
    exact Nat.mul_le_mul_right _ (by omega)
  have bound : (i.toInt * 2 ^ 1074).natAbs ≤ Binary64.units top := by
    rw [units, power]
    exact scaled 1074
  have nearest := Binary64.nearest_le bound
  have small : min (Binary64.nearest (i.toInt * 2 ^ 1074).natAbs) infinite < 2 ^ 63 :=
    Nat.lt_of_le_of_lt (Nat.min_le_right _ _) (by decide)
  rw [Finite, ofInt, ofExact, ofUnits, (magnitude_ofMagnitude small).1]
  have : top < infinite := by decide
  omega

end Spvirit.F64
