import Mathlib.Algebra.Order.Field.Rat
import Mathlib.Data.Nat.Cast.Order.Field
import Mathlib.Tactic.FieldSimp
import Mathlib.Tactic.Linarith
import NestedStyles.Proofs.Number.Rounding

/-!
# Rounding goes to the nearest double

Among the numbers with 53 significant bits no other is nearer to a quotient than the one it is rounded to. All else
follows from this: such numbers are rounded to themselves, and a larger quotient is not rounded to a smaller number.

- `Double.Representable`: numbers of units with at most 53 significant bits.
- `Double.nearest_isNearest`: no representable number is nearer than the rounded one.
- `Double.representable_nearest`, `Double.nearest_of_representable`: rounding gives representable numbers, and keeps
  them.
- `Double.nearest_congr`, `Double.nearest_mono`: rounding depends on the quotient only, and is monotone.
- `Double.ofInt_mono`: whole numbers of units with their signs.
-/

namespace NestedStyles.Double

/-- Whole numbers of units that a double of unlimited range can hold. -/
def Representable (n : Nat) : Prop := ∃ m k, m < power 53 ∧ n = m * power k

theorem power_add (j k : Nat) : power (j + k) = power j * power k := Nat.pow_add 2 j k

theorem power_pos (k : Nat) : 0 < power k := Nat.two_pow_pos k

/-! ## Rounding to a whole number -/

section Whole

variable (num : Nat) {den : Nat}

theorem roundDiv_bounds (den : Nat) : num / den ≤ roundDiv num den ∧ roundDiv num den ≤ num / den + 1 := by
  simp only [roundDiv]
  split
  · omega
  split <;> omega

theorem le_roundDiv_mul (hden : 0 < den) : 2 * num ≤ 2 * (roundDiv num den * den) + den := by
  have hnum : num / den * den + num % den = num := by
    rw [Nat.mul_comm]
    exact Nat.div_add_mod num den
  by_cases habove : den < 2 * (num % den)
  · have hround : roundDiv num den = num / den + 1 := by
      simp only [roundDiv, if_neg habove.not_gt, if_pos habove]
    have hmul : roundDiv num den * den = num / den * den + den := by
      rw [hround, Nat.add_mul, Nat.one_mul]
    have hmod := Nat.mod_lt num hden
    omega
  · have hmul := Nat.mul_le_mul_right den (roundDiv_bounds num den).1
    omega

/-- A whole number is at most one half away. -/
theorem roundDiv_error (hden : 0 < den) : |(roundDiv num den : ℚ) - num / den| ≤ 1 / 2 := by
  have hpos : (0 : ℚ) < den := by exact_mod_cast hden
  have hupper : (2 : ℚ) * (roundDiv num den * den) ≤ 2 * num + den := by exact_mod_cast roundDiv_mul_le num den
  have hlower : (2 : ℚ) * num ≤ 2 * (roundDiv num den * den) + den := by exact_mod_cast le_roundDiv_mul num hden
  refine abs_sub_le_iff.2 ⟨?_, ?_⟩
  · rw [sub_le_comm, le_div_iff₀ hpos]
    linarith
  · rw [sub_le_iff_le_add, div_le_iff₀ hpos]
    linarith

/-- No whole number is nearer. -/
theorem roundDiv_isNearest (hden : 0 < den) (k : Nat) :
    |(roundDiv num den : ℚ) - num / den| ≤ |(k : ℚ) - num / den| := by
  by_cases hk : roundDiv num den = k
  · rw [hk]
  -- two different whole numbers are one apart, and the rounded one is within one half
  have hgap : (1 : ℚ) ≤ |(roundDiv num den : ℚ) - k| := by
    have hne : ((roundDiv num den : Int) - k) ≠ 0 := sub_ne_zero.2 (by exact_mod_cast hk)
    exact_mod_cast Int.one_le_abs hne
  have herror := roundDiv_error num hden
  have htriangle := abs_sub_le (roundDiv num den : ℚ) (num / den) k
  rw [abs_sub_comm (num / den : ℚ)] at htriangle
  linarith

theorem roundDiv_mul_left (den : Nat) {k : Nat} (hk : 0 < k) : roundDiv (k * num) (k * den) = roundDiv num den := by
  have hmul : 2 * (k * (num % den)) = k * (2 * (num % den)) := Nat.mul_left_comm ..
  simp only [roundDiv, Nat.mul_div_mul_left _ _ hk, Nat.mul_mod_mul_left, hmul, Nat.mul_lt_mul_left hk]

end Whole

/-! ## Rounding to 53 bits -/

section Bits

variable (num : Nat) {den num' den' r : Nat}

theorem spacing_eq (den : Nat) : spacing num den = power ((num / den).log2 - 52) := rfl

theorem spacing_pos (den : Nat) : 0 < spacing num den := power_pos _

/-- Multiples of the spacing are no nearer than the rounded number. -/
theorem nearest_le_multiple (hden : 0 < den) (h : spacing num den ∣ r) :
    |(nearest num den : ℚ) - num / den| ≤ |(r : ℚ) - num / den| := by
  obtain ⟨k, rfl⟩ := h
  have hstep : (0 : ℚ) < spacing num den := by exact_mod_cast spacing_pos num den
  have hround := roundDiv_isNearest num (Nat.mul_pos hden (spacing_pos num den)) k
  have hscale : ∀ x : ℚ, |x * spacing num den - num / den| =
      |x - num / (den * spacing num den : Nat)| * spacing num den := by
    intro x
    rw [← abs_of_pos hstep, ← abs_mul, abs_of_pos hstep, Nat.cast_mul, sub_mul, ← div_div,
      div_mul_cancel₀ _ hstep.ne']
  rw [nearest, Nat.cast_mul, Nat.cast_mul, mul_comm (spacing num den : ℚ), hscale, hscale]
  exact mul_le_mul_of_nonneg_right hround hstep.le

/-- A representable number is a multiple of the spacing, or there is a power of two between it and the quotient. -/
theorem Representable.dvd_or_lt (hr : Representable r) (den : Nat) :
    spacing num den ∣ r ∨ (52 < (num / den).log2 ∧ r < power (num / den).log2) := by
  obtain ⟨m, k, hm, rfl⟩ := hr
  by_cases hk : (num / den).log2 - 52 ≤ k
  · exact .inl (Nat.dvd_trans (power_dvd_power hk) (Nat.dvd_mul_left ..))
  · refine .inr ⟨by omega, ?_⟩
    calc m * power k < power 53 * power k := Nat.mul_lt_mul_of_pos_right hm (power_pos k)
      _ = power (53 + k) := (power_add 53 k).symm
      _ ≤ power (num / den).log2 := power_le_power (by omega)

/-- **No representable number is nearer to a quotient than the rounded one.** -/
theorem nearest_isNearest (hden : 0 < den) (hr : Representable r) :
    |(nearest num den : ℚ) - num / den| ≤ |(r : ℚ) - num / den| := by
  rcases hr.dvd_or_lt num den with hdvd | ⟨hlog, hlt⟩
  · exact nearest_le_multiple num hden hdvd
  -- the power of two is a multiple of the spacing, and it is between the representable number and the quotient
  have hne : num / den ≠ 0 := by
    intro hzero
    rw [hzero] at hlog
    exact absurd hlog (by decide)
  have hpower : (power (num / den).log2 : ℚ) ≤ num / den := by
    have hle : power (num / den).log2 ≤ num / den := Nat.log2_self_le hne
    calc (power (num / den).log2 : ℚ) ≤ (num / den : Nat) := by exact_mod_cast hle
      _ ≤ num / den := Nat.cast_div_le
  have hlt' : (r : ℚ) < power (num / den).log2 := by exact_mod_cast hlt
  have hbetween := nearest_le_multiple num hden (power_dvd_power (Nat.sub_le (num / den).log2 52))
  rw [abs_sub_comm (power _ : ℚ), abs_of_nonneg (sub_nonneg.2 hpower)] at hbetween
  rw [abs_sub_comm (r : ℚ), abs_of_nonneg (sub_nonneg.2 (hlt'.le.trans hpower))]
  linarith

/-- Rounding gives representable numbers. -/
theorem representable_nearest (den : Nat) : Representable (nearest num den) := by
  have hquotient : num / (den * spacing num den) < power 53 := by
    rw [← Nat.div_div_eq_div_mul, Nat.div_lt_iff_lt_mul (spacing_pos num den), spacing_eq, ← power_add]
    by_cases hzero : num / den = 0
    · rw [hzero]
      exact power_pos _
    · exact (log2_lt_iff hzero _).1 (by omega)
  have hround := (roundDiv_bounds num (den * spacing num den)).2
  rcases Nat.lt_or_ge (roundDiv num (den * spacing num den)) (power 53) with hlt | hge
  · exact ⟨_, _, hlt, by rw [nearest, spacing_eq]⟩
  · -- all bits carried over
    have hcarry : roundDiv num (den * spacing num den) = power 53 := by omega
    refine ⟨1, 53 + ((num / den).log2 - 52), by decide, ?_⟩
    rw [nearest, hcarry, spacing_eq, Nat.one_mul, power_add]

/-- Representable numbers are rounded to themselves. -/
theorem nearest_of_representable (hr : Representable r) : nearest r 1 = r := by
  have hnear := nearest_isNearest r Nat.one_pos hr
  rw [Nat.cast_one, div_one, sub_self, abs_zero] at hnear
  have heq := abs_nonpos_iff.1 hnear
  exact_mod_cast sub_eq_zero.1 heq

theorem nearest_mul_left (den : Nat) {k : Nat} (hk : 0 < k) : nearest (k * num) (k * den) = nearest num den := by
  have hspacing : spacing (k * num) (k * den) = spacing num den := by
    rw [spacing_eq, spacing_eq, Nat.mul_div_mul_left _ _ hk]
  rw [nearest, nearest, hspacing, Nat.mul_assoc, roundDiv_mul_left num _ hk]

variable {num}

/-- Rounding depends on the quotient only. -/
theorem nearest_congr (hden : 0 < den) (hden' : 0 < den') (h : num * den' = num' * den) :
    nearest num den = nearest num' den' := by
  rw [← nearest_mul_left num den hden', ← nearest_mul_left num' den' hden, Nat.mul_comm den' num, h,
    Nat.mul_comm num' den, Nat.mul_comm den' den]

/-- Two numbers are in the order of the goals that each of them is nearer to. -/
theorem le_of_abs_le {a b x y : ℚ} (hxy : x < y) (hx : |a - x| ≤ |b - x|) (hy : |b - y| ≤ |a - y|) : a ≤ b := by
  by_contra hgt
  have hproduct := mul_pos (sub_pos.2 (not_le.1 hgt)) (sub_pos.2 hxy)
  have hleft := sq_le_sq.2 hx
  have hright := sq_le_sq.2 hy
  linarith

/-- **Rounding is monotone**: of two numbers that are both nearest to their quotients, the one for the larger quotient
is not smaller. -/
theorem nearest_mono (hden : 0 < den) (hden' : 0 < den') (h : num * den' ≤ num' * den) :
    nearest num den ≤ nearest num' den' := by
  rcases Nat.eq_or_lt_of_le h with heq | hlt
  · exact (nearest_congr hden hden' heq).le
  have hquotient : (num : ℚ) / den < num' / den' := by
    rw [div_lt_div_iff₀ (by exact_mod_cast hden) (by exact_mod_cast hden')]
    exact_mod_cast hlt
  have hle := le_of_abs_le hquotient (nearest_isNearest num hden (representable_nearest num' den'))
    (nearest_isNearest num' hden' (representable_nearest num den))
  exact_mod_cast hle

end Bits

/-! ## Signs -/

section Signs

variable {x y a b : Int}

theorem eq_of_ofInt (h : ofInt x = finite a) :
    a = if x < 0 then -(nearest x.natAbs 1 : Int) else nearest x.natAbs 1 := by
  unfold ofInt round at h
  dsimp only at h
  split at h
  · cases h
    simp only [decide_eq_true_eq]
  · cases h

theorem nearest_one_mono {m n : Nat} (h : m ≤ n) : nearest m 1 ≤ nearest n 1 :=
  nearest_mono Nat.one_pos Nat.one_pos (Nat.mul_le_mul_right 1 h)

/-- Rounding whole numbers of units with their signs is monotone. -/
theorem ofInt_mono (hx : ofInt x = finite a) (hy : ofInt y = finite b) (h : x ≤ y) : a ≤ b := by
  rw [eq_of_ofInt hx, eq_of_ofInt hy]
  split
  · split
    · -- both negative: the smaller one has the larger magnitude
      have hmono : nearest y.natAbs 1 ≤ nearest x.natAbs 1 := nearest_one_mono (by omega)
      omega
    · omega
  · have hmono : nearest x.natAbs 1 ≤ nearest y.natAbs 1 := nearest_one_mono (by omega)
    rw [if_neg (by omega)]
    omega

end Signs

end NestedStyles.Double
