import NestedStyles.Number.Double

/-!
# How far rounding goes

A rounded number is a whole number of steps, and at most half a step above the number itself. So the largest finite
doubles keep a step of room below the limit, and one half, which is far less than that, cannot lift a double over it.

- `Double.nearest_le`: a number is rounded up by at most half a step.
- `Double.nearest_add_lastStep_le`: a rounded number below the limit keeps a step of room.
- `Double.exists_ofInt_add_half`: a double and one half have a finite sum.
-/

namespace NestedStyles.Double

/-- A power of two. -/
def power (k : Nat) : Nat := Nat.pow 2 k

theorem power_le_power {j k : Nat} (h : j ≤ k) : power j ≤ power k := Nat.pow_le_pow_right (by decide) h

theorem power_dvd_power {j k : Nat} (h : j ≤ k) : power j ∣ power k := Nat.pow_dvd_pow 2 h

theorem log2_lt_iff {n : Nat} (hn : n ≠ 0) (k : Nat) : n.log2 < k ↔ n < power k := Nat.log2_lt hn

/-- The distance between the largest finite doubles, in units. -/
def lastStep : Nat := power 2045

theorem limit_eq_lastStep : limit = 9007199254740992 * lastStep := by decide +kernel

theorem roundDiv_mul_le (num den : Nat) : 2 * (roundDiv num den * den) ≤ 2 * num + den := by
  have hnum : num / den * den + num % den = num := by
    rw [Nat.mul_comm]
    exact Nat.div_add_mod num den
  by_cases hbelow : 2 * (num % den) < den
  · have hround : roundDiv num den = num / den := by simp [roundDiv, hbelow]
    rw [hround]
    omega
  · have hround : roundDiv num den ≤ num / den + 1 := by
      simp only [roundDiv, if_neg hbelow]
      split <;> omega
    have hmul : roundDiv num den * den ≤ num / den * den + den := by
      rw [← Nat.succ_mul]
      exact Nat.mul_le_mul_right den hround
    omega

theorem nearest_le (num : Nat) : 2 * nearest num 1 ≤ 2 * num + spacing num 1 := by
  have h := roundDiv_mul_le num (spacing num 1)
  rwa [nearest, Nat.one_mul]

theorem spacing_eq_power (num : Nat) : spacing num 1 = power (num.log2 - 52) := by
  rw [spacing, Nat.div_one, power]

/-- Below the limit no step is larger than the last one. -/
theorem spacing_le_lastStep {num : Nat} (h : num < power 2098) : spacing num 1 ≤ lastStep := by
  rw [spacing_eq_power]
  refine power_le_power ?_
  by_cases hzero : num = 0
  · simp [hzero]
  · have hlog := (log2_lt_iff hzero 2098).2 h
    omega

/-- A rounded number that is not beyond all doubles leaves room for a step. -/
theorem nearest_add_lastStep_le {num : Nat} (h : nearest num 1 < limit) : nearest num 1 + lastStep ≤ limit := by
  have hlimit := limit_eq_lastStep
  by_cases hsmall : num < power 2097
  · -- less than half the limit, and then rounding does not matter
    have hpower : power 2097 = 4503599627370496 * lastStep := by decide +kernel
    have hstep := spacing_le_lastStep (Nat.lt_of_lt_of_le hsmall (power_le_power (by decide)))
    have hle := nearest_le num
    omega
  · -- otherwise the number is rounded in steps at least as large as the last one
    have hlog : 2097 ≤ num.log2 := by
      have hzero : num ≠ 0 := by
        rintro rfl
        exact hsmall (by decide +kernel)
      exact Nat.le_of_not_lt fun hlt => hsmall ((log2_lt_iff hzero 2097).1 hlt)
    have hdvd : lastStep ∣ nearest num 1 := by
      refine Nat.dvd_trans ?_ (Nat.dvd_mul_left (spacing num 1) _)
      rw [spacing_eq_power]
      exact power_dvd_power (Nat.le_sub_of_add_le hlog)
    obtain ⟨k, hk⟩ := hdvd
    rw [hk, Nat.mul_comm, hlimit] at h ⊢
    have hle := Nat.mul_le_mul_right lastStep (Nat.lt_of_mul_lt_mul_right h)
    rwa [Nat.succ_mul] at hle

/-- A number that is more than half a step below the limit is not rounded up to it. -/
theorem nearest_lt_limit {num : Nat} (h : 2 * num + lastStep < 2 * limit) : nearest num 1 < limit := by
  have hpower : limit = power 2098 := by decide +kernel
  have hstep : spacing num 1 ≤ lastStep := spacing_le_lastStep (by omega)
  have hle := nearest_le num
  omega

/-! ## Sums that stay finite -/

theorem ofInt_eq_finite {units product : Int} (h : ofInt units = finite product) :
    product.natAbs = nearest units.natAbs 1 ∧ nearest units.natAbs 1 < limit := by
  unfold ofInt round at h
  dsimp only at h
  split at h
  · next hlt =>
    refine ⟨?_, hlt⟩
    cases h
    split
    · exact (Int.natAbs_neg _).trans (Int.natAbs_natCast _)
    · exact Int.natAbs_natCast _
  · cases h

theorem exists_ofInt {units : Int} (h : nearest units.natAbs 1 < limit) : ∃ product, ofInt units = finite product := by
  unfold ofInt round
  dsimp only
  rw [if_pos h]
  exact ⟨_, rfl⟩

/-- **A double and one half have a finite sum**: even the largest double is only rounded back to itself. -/
theorem exists_ofInt_add_half {units product : Int} (h : ofInt units = finite product) :
    ∃ sum, ofInt (product + half) = finite sum := by
  obtain ⟨habs, hlt⟩ := ofInt_eq_finite h
  have hroom := nearest_add_lastStep_le hlt
  have hhalf : 2 * half < lastStep := by decide +kernel
  have hsum := Int.natAbs_add_le product half
  rw [Int.natAbs_natCast] at hsum
  exact exists_ofInt (nearest_lt_limit (by omega))

end NestedStyles.Double
