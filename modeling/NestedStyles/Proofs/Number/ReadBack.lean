import Mathlib.Data.Rat.Cast.Order
import NestedStyles.Proofs.Number.Layout
import NestedStyles.Proofs.Number.Nearest

/-!
# The text of a double reads back

The double next to a decimal depends on the value of the decimal only, not on how its digits and its exponent are
divided; the powers of ten that are never computed make no difference. So the zeros at the end of the digits may go,
the digits may be laid out in any way, and what is read back is the double that the digits were chosen for.

- `Double.ofDecimal_eq_round`, `Double.ofDecimal_congr`: a decimal is rounded by its value.
- `Double.IsProper`: the doubles that rounding can give.
- `Double.shortest_readsBack`: the shortest digits read back.
- `Double.read?_layout`: the text of a decimal is read as the double next to it.
- `Double.read?_text`: the text of a double is read as this double.
-/

namespace NestedStyles

namespace Double

/-! ## Decimals are rounded by their value -/

section Rounding

variable {num den num' den' : Nat} {negative : Bool}

theorem round_of_lt (h : nearest num den < limit) :
    round negative num den = finite (if negative then -(nearest num den : Int) else nearest num den) := by
  rw [round]
  exact if_pos h

theorem round_of_le (h : limit ≤ nearest num den) : round negative num den = infinite negative := by
  rw [round]
  exact if_neg (Nat.not_lt.2 h)

theorem round_cases (negative : Bool) (num den : Nat) :
    (nearest num den < limit ∧
      round negative num den = finite (if negative then -(nearest num den : Int) else nearest num den)) ∨
      round negative num den = infinite negative := by
  by_cases h : nearest num den < limit
  · exact .inl ⟨h, round_of_lt h⟩
  · exact .inr (round_of_le (Nat.not_lt.1 h))

theorem round_congr (hden : 0 < den) (hden' : 0 < den') (h : num * den' = num' * den) :
    round negative num den = round negative num' den' := by
  rw [round, round, nearest_congr hden hden' h]

theorem representable_limit : Representable limit := ⟨1, 2098, by decide, by decide +kernel⟩

/-- Numbers from the limit on are infinite. -/
theorem round_of_limit_le (h : limit ≤ num) : round negative num 1 = infinite negative := by
  have hmono := nearest_one_mono h
  rw [nearest_of_representable representable_limit] at hmono
  exact round_of_le hmono

/-- Less than half a unit is nothing. -/
theorem round_of_lt_half (h : 2 * num < den) : round negative num den = finite 0 := by
  have hquotient : num / den = 0 := Nat.div_eq_of_lt (by omega)
  have hspacing : spacing num den = 1 := by
    rw [spacing_eq, hquotient]
    rfl
  have hnearest : nearest num den = 0 := by
    simp only [nearest, roundDiv, hspacing, Nat.mul_one, hquotient, Nat.mod_eq_of_lt (show num < den by omega), if_pos h]
  have hlimit : 0 < limit := by decide +kernel
  rw [round_of_lt (hnearest ▸ hlimit), hnearest]
  cases negative <;> rfl

-- The exponents of ten have names in these two, so that the powers are computed nowhere else.
theorem exists_limit_le : ∃ k : Nat, k = 401 ∧ limit ≤ 10 ^ k * one := ⟨401, rfl, by decide +kernel⟩

theorem exists_two_one_le : ∃ k : Nat, k = 400 ∧ 2 * one ≤ 10 ^ k := ⟨400, rfl, by decide +kernel⟩

/-- No power of ten is left out that would change the result. -/
theorem ofDecimal_eq_round (negative : Bool) (digits : Nat) (exponent : Int) :
    ofDecimal negative digits exponent =
      round negative (digits * 10 ^ exponent.toNat * one) (10 ^ (-exponent).toNat) := by
  unfold ofDecimal
  split
  · next hzero =>
    rw [hzero, Nat.zero_mul, Nat.zero_mul, round_of_lt_half (Nat.pow_pos (by decide))]
  next hdigits =>
  split
  · next hlarge =>
    have hden : (-exponent).toNat = 0 := by omega
    rw [hden, pow_zero]
    obtain ⟨k, hk, hlimit⟩ := exists_limit_le
    refine (round_of_limit_le (hlimit.trans (Nat.mul_le_mul_right one ?_))).symm
    calc 10 ^ k ≤ 10 ^ exponent.toNat := Nat.pow_le_pow_right (by decide) (by omega)
      _ ≤ digits * 10 ^ exponent.toNat := Nat.le_mul_of_pos_left _ (Nat.pos_of_ne_zero hdigits)
  split
  · next hsmall =>
    have hnum : exponent.toNat = 0 := by omega
    obtain ⟨k, hk, htens⟩ := exists_two_one_le
    rw [hnum, pow_zero, Nat.mul_one]
    refine (round_of_lt_half ?_).symm
    calc 2 * (digits * one) = digits * (2 * one) := Nat.mul_left_comm ..
      _ ≤ digits * 10 ^ k := Nat.mul_le_mul_left _ htens
      _ < 2 ^ (digits.log2 + 1) * 10 ^ k := Nat.mul_lt_mul_of_pos_right Nat.lt_log2_self (Nat.pow_pos (by decide))
      _ ≤ 10 ^ (digits.log2 + 1) * 10 ^ k := Nat.mul_le_mul_right _ (Nat.pow_le_pow_left (by decide) _)
      _ = 10 ^ (digits.log2 + 1 + k) := (Nat.pow_add ..).symm
      _ ≤ 10 ^ (-exponent).toNat := Nat.pow_le_pow_right (by decide) (by omega)
  · rfl

theorem ten_zpow (exponent : Int) : (10 : ℚ) ^ exponent = 10 ^ exponent.toNat / 10 ^ (-exponent).toNat := by
  rw [eq_div_iff (by positivity), ← zpow_natCast, ← zpow_natCast, ← zpow_add₀ (by norm_num)]
  congr 1
  omega

/-- **Decimals of the same value are rounded to the same double.** -/
theorem ofDecimal_congr {digits digits' : Nat} {exponent exponent' : Int}
    (h : (digits : ℚ) * 10 ^ exponent = digits' * 10 ^ exponent') :
    ofDecimal negative digits exponent = ofDecimal negative digits' exponent' := by
  rw [ofDecimal_eq_round, ofDecimal_eq_round]
  refine round_congr (Nat.pow_pos (by decide)) (Nat.pow_pos (by decide)) ?_
  have hcross : digits * 10 ^ exponent.toNat * 10 ^ (-exponent').toNat =
      digits' * 10 ^ exponent'.toNat * 10 ^ (-exponent).toNat := by
    rw [ten_zpow, ten_zpow, mul_div_assoc', mul_div_assoc', div_eq_div_iff (by positivity) (by positivity)] at h
    exact_mod_cast h
  rw [Nat.mul_right_comm, hcross, Nat.mul_right_comm]

end Rounding

/-! ## Proper doubles -/

/-- The doubles that there are: a finite one has 53 significant bits and is below the limit. -/
inductive IsProper : Double → Prop
  | finite {units : Int} (hunits : Representable units.natAbs) (hlt : units.natAbs < limit) : IsProper (.finite units)
  | infinite (negative : Bool) : IsProper (.infinite negative)
  | nan : IsProper .nan

theorem isProper_round (negative : Bool) (num den : Nat) : (round negative num den).IsProper := by
  rcases round_cases negative num den with ⟨hlt, hround⟩ | hround
  · have habs : (if negative = true then -(nearest num den : Int) else nearest num den).natAbs = nearest num den := by
      split
      · rw [Int.natAbs_neg, Int.natAbs_natCast]
      · exact Int.natAbs_natCast _
    rw [hround]
    exact .finite (habs.symm ▸ representable_nearest num den) (habs.symm ▸ hlt)
  · rw [hround]
    exact .infinite negative

theorem isProper_toDouble (n : Numeral) : n.toDouble.IsProper := by
  cases n with
  | decimal negative digits exponent =>
    rw [Numeral.toDouble, ofDecimal_eq_round]
    exact isProper_round ..
  | infinite negative => exact .infinite negative
  | nan => exact .nan

theorem isProper_of_read? {s : String} {d : Double} (h : read? s = some d) : d.IsProper := by
  obtain ⟨n, -, rfl⟩ := Option.map_eq_some_iff.1 h
  exact isProper_toDouble n

theorem round_of_representable {n : Nat} (hn : Representable n) (hlt : n < limit) : round false n 1 = finite n := by
  have hnearest := nearest_of_representable hn
  rw [round_of_lt (hnearest.symm ▸ hlt), hnearest]
  rfl

/-- The sign does not change the magnitude. -/
theorem ofDecimal_signed {digits n : Nat} {exponent : Int} (h : ofDecimal false digits exponent = finite n)
    (negative : Bool) : ofDecimal negative digits exponent = finite (if negative then -n else n) := by
  rw [ofDecimal_eq_round] at h ⊢
  by_cases hlt : nearest (digits * 10 ^ exponent.toNat * one) (10 ^ (-exponent).toNat) < limit
  · rw [round_of_lt hlt] at h ⊢
    rw [← finite.inj h]
    rfl
  · rw [round_of_le (Nat.not_lt.1 hlt)] at h
    cases h

/-! ## The shortest digits -/

section Shortest

variable {units : Nat}

theorem exact_readsBack (hunits : Representable units) (hlt : units < limit) : ReadsBack units (exact units) := by
  obtain ⟨k, hk⟩ : ∃ k : Nat, k = 1074 := ⟨_, rfl⟩
  have hfives : Nat.pow 5 1074 = 5 ^ k := by
    rw [hk]
    decide +kernel
  have hone : one = 2 ^ k := by
    rw [hk]
    decide +kernel
  have hexponent : (-1074 : Int) = -k := by omega
  have hnum : (-(k : Int)).toNat = 0 := by omega
  rw [ReadsBack, exact, hfives, hexponent, ofDecimal_eq_round, hnum, neg_neg, Int.toNat_natCast,
    ← round_of_representable hunits hlt]
  refine round_congr (Nat.pow_pos (by decide)) Nat.one_pos ?_
  rw [hone, pow_zero, Nat.mul_one, Nat.mul_one, Nat.mul_assoc, ← Nat.mul_pow]

/-- Of the two decimals around a double only one that reads back is chosen. -/
theorem neighbour?_readsBack {exponent : Int} {d : Decimal} (h : neighbour? units exponent = some d) :
    ReadsBack units d := by
  unfold neighbour? at h
  dsimp only at h
  generalize units * Nat.pow 10 (-exponent).toNat = num at h
  generalize one * Nat.pow 10 exponent.toNat = den at h
  split at h
  · next hbelow =>
    split at h
    · next habove =>
      -- rounding gives one of the two
      cases h
      obtain ⟨hlow, hhigh⟩ := roundDiv_bounds num den
      rcases Nat.eq_or_lt_of_le hlow with heq | hlt
      · rwa [← heq]
      · rwa [show roundDiv num den = num / den + 1 by omega]
    · cases h
      exact hbelow
  · split at h
    · next habove =>
      cases h
      exact habove
    · cases h

/-- **The shortest digits read back.** -/
theorem shortest_readsBack (hunits : Representable units) (hlt : units < limit) : ReadsBack units (shortest units) := by
  unfold shortest
  cases hfound : (List.range 17).findSome? fun n : Nat => neighbour? units (pointPosition units - (n + 1)) with
  | none => exact exact_readsBack hunits hlt
  | some d =>
    obtain ⟨n, -, hn⟩ := List.exists_of_findSome?_eq_some hfound
    exact neighbour?_readsBack hn

end Shortest

/-! ## Zeros at the end -/

theorem trimZeros_value (d : Decimal) :
    (d.trimZeros.digits : ℚ) * 10 ^ d.trimZeros.exponent = d.digits * 10 ^ d.exponent := by
  fun_induction Decimal.trimZeros d with
  | case1 d h ih =>
    have hdigits : (d.digits : ℚ) = (d.digits / 10 : Nat) * 10 := by
      exact_mod_cast (Nat.div_mul_cancel (Nat.dvd_of_mod_eq_zero h.2)).symm
    rw [ih, zpow_add_one₀ (by norm_num), hdigits]
    ring
  | case2 d h => rfl

theorem trimZeros_digits {d : Decimal} (hd : d.digits ≠ 0) : d.trimZeros.digits % 10 ≠ 0 := by
  fun_induction Decimal.trimZeros d with
  | case1 d h ih => exact ih (by simp only; omega)
  | case2 d h => exact fun hzero => h ⟨hd, hzero⟩

theorem digitChar_ne_zero {n : Nat} (hn : n ≠ 0) : n.digitChar ≠ '0' := by simpa using hn

/-- The digits of a number that does not end with a zero. -/
theorem significant_toDigits {n : Nat} (hn : n % 10 ≠ 0) : Decimal.Significant (Nat.toDigits 10 n) where
  isDigit c hc := Nat.isDigit_of_mem_toDigits (by decide) (by decide) hc
  first := by
    have hpos : n ≠ 0 := by
      rintro rfl
      exact hn rfl
    clear hn
    induction n using Nat.strongRecOn with
    | ind n ih =>
      by_cases hlt : n < 10
      · rw [Nat.toDigits_of_lt_base hlt]
        exact ⟨_, rfl, digitChar_ne_zero hpos⟩
      · rw [Nat.toDigits_of_base_le (by decide) (Nat.not_lt.1 hlt), List.head?_append_of_ne_nil _ Nat.toDigits_ne_nil]
        exact ih (n / 10) (by omega) (by omega)
  last := by
    by_cases hlt : n < 10
    · rw [Nat.toDigits_of_lt_base hlt]
      exact ⟨_, rfl, digitChar_ne_zero (by omega)⟩
    · rw [Nat.toDigits_of_base_le (by decide) (Nat.not_lt.1 hlt)]
      exact ⟨_, by simp, digitChar_ne_zero hn⟩

/-! ## Texts -/

/-- The text of a decimal is read as the double next to it. -/
theorem read?_layout {digits : List Char} (h : Decimal.Significant digits) (negative : Bool) (exponent : Int) :
    read? (Decimal.layout negative digits exponent) = some (ofDecimal negative (Numeral.value digits) exponent) := by
  obtain ⟨l, hsign, hshows⟩ := Decimal.exists_shows (.ofNegative negative) h exponent
  rw [read?, Decimal.layout_eq_text hsign hshows, l.read?_text, hsign, Numeral.Sign.negative_ofNegative,
    Option.map_some, Numeral.toDouble, ofDecimal_congr hshows.value_eq]

/-- **The text of a double is read as this double.** -/
theorem read?_text {d : Double} (h : d.IsProper) : read? d.text = some d := by
  cases h with
  | infinite negative => cases negative <;> decide +kernel
  | nan => decide +kernel
  | @finite units hunits hlt =>
    by_cases hzero : units = 0
    · rw [hzero]
      decide +kernel
    have hback := shortest_readsBack hunits hlt
    have hdigits : (shortest units.natAbs).digits ≠ 0 := by
      intro hnone
      rw [ReadsBack, hnone, ofDecimal, if_pos rfl] at hback
      exact hzero (Int.natAbs_eq_zero.1 (Int.natCast_inj.1 (finite.inj hback)).symm)
    have htext : (finite units).text = Decimal.layout (decide (units < 0))
        (Nat.toDigits 10 (shortest units.natAbs).trimZeros.digits) (shortest units.natAbs).trimZeros.exponent := by
      simp only [text, if_neg hzero]
    have hunits' : (if decide (units < 0) = true then -(units.natAbs : Int) else units.natAbs) = units := by
      simp only [decide_eq_true_eq]
      split <;> omega
    rw [htext, read?_layout (significant_toDigits (trimZeros_digits hdigits)), Numeral.value,
      Nat.ofDigitChars_ten_toDigits, ofDecimal_congr (trimZeros_value _), ofDecimal_signed hback, hunits']

end Double

end NestedStyles
