import Mathlib.Algebra.Order.Field.Power
import Mathlib.Tactic.NormNum
import Mathlib.Tactic.Positivity
import NestedStyles.Number.Layout
import NestedStyles.Proofs.Number.Literal

/-!
# The text of a decimal denotes it

Digits and an exponent are laid out in one of four ways, by the place of the point: behind all digits, among them,
before them, or, if it is far away, with an exponent. Each is a decimal literal that denotes the decimal, without
zeros that could be left out.

- `Decimal.Significant`: digits of which the first and the last are not zero.
- `Decimal.Shows`: a literal that shows a decimal.
- `Decimal.exists_shows`: each of the four layouts does.
- `Decimal.magnitude_bounds`: the place of the point bounds the decimal by powers of ten.
- `Decimal.layout_denotes`: the text of a decimal, its value and its notation.
-/

namespace NestedStyles

namespace Decimal

open Numeral

/-- Digits that neither begin nor end with a zero. -/
structure Significant (digits : List Char) : Prop where
  isDigit : ∀ c ∈ digits, c.isDigit = true
  first : ∃ c ∈ digits.head?, c ≠ '0'
  last : ∃ c ∈ digits.getLast?, c ≠ '0'

/-- A literal without spare digits: an exponent goes with one digit before the point, a zero stands first only by
itself before a point, and none stands last behind a point. -/
structure Tidy (l : Literal) : Prop where
  mantissa : l.exponent ≠ none → l.whole.length = 1
  leading : l.whole.head? = some '0' → l.whole = ['0'] ∧ l.fraction ≠ none
  trailing : ∀ ds ∈ l.fraction, ∃ c ∈ ds.getLast?, c ≠ '0'

/-- A literal that shows a decimal: it is written as the decimal is laid out, it denotes the decimal, and it does
without an exponent if the point is near the digits. -/
structure Shows (digits : List Char) (exponent : Int) (l : Literal) : Prop extends Tidy l where
  body_eq : body digits exponent = l.body
  value_eq : (value (l.whole ++ l.places) : ℚ) * 10 ^ (l.power - l.places.length) = value digits * 10 ^ exponent
  plain : l.exponent = none ↔ -6 < digits.length + exponent ∧ digits.length + exponent ≤ 21

section Layouts

variable {digits : List Char} {exponent : Int}

theorem Significant.ne_nil (h : Significant digits) : digits ≠ [] := by
  rintro rfl
  obtain ⟨c, hc, -⟩ := h.first
  cases hc

theorem Significant.length_pos (h : Significant digits) : 0 < digits.length := List.length_pos_iff.2 h.ne_nil

theorem Significant.head?_ne (h : Significant digits) : digits.head? ≠ some '0' := by
  obtain ⟨c, hc, hne⟩ := h.first
  rw [Option.mem_def.1 hc]
  exact fun heq => hne (Option.some.inj heq)

/-- Behind a point that does not stand behind all digits the last digit is still the last. -/
theorem Significant.last_drop (h : Significant digits) {n : Nat} (hn : n < digits.length) :
    ∃ c ∈ (digits.drop n).getLast?, c ≠ '0' := by
  obtain ⟨c, hc, hne⟩ := h.last
  exact ⟨c, by rwa [List.getLast?_drop, if_neg (by omega)], hne⟩

theorem Significant.head?_take (h : Significant digits) {n : Nat} (hn : 0 < n) :
    (digits.take n).head? ≠ some '0' := by
  obtain ⟨n, rfl⟩ := Nat.exists_eq_succ_of_ne_zero hn.ne'
  rw [List.head?_take, if_neg (Nat.succ_ne_zero n)]
  exact h.head?_ne

/-! ### The four layouts -/

theorem isDigit_of_mem_replicate {n : Nat} {c : Char} (h : c ∈ List.replicate n '0') : c.isDigit = true := by
  rw [List.eq_of_mem_replicate h]
  decide

/-- The point is behind all digits: zeros fill the places up to it. -/
def integer (sign : Sign) (h : Significant digits) (zeros : Nat) : Literal where
  sign := sign
  whole := digits ++ List.replicate zeros '0'
  isDigit_whole c hc := (List.mem_append.1 hc).elim (h.isDigit c) isDigit_of_mem_replicate
  ne_nil := by simp [h.ne_nil]

/-- The point is behind the first `n` digits. -/
def divided (sign : Sign) (h : Significant digits) (n : Nat) : Literal where
  sign := sign
  whole := digits.take n
  fraction := some (digits.drop n)
  isDigit_whole c hc := h.isDigit c (List.mem_of_mem_take hc)
  isDigit_fraction c hc := h.isDigit c (List.mem_of_mem_drop hc)
  ne_nil := by simp [h.ne_nil]

/-- The point is before all digits, with zeros between them. -/
def small (sign : Sign) (h : Significant digits) (zeros : Nat) : Literal where
  sign := sign
  whole := ['0']
  fraction := some (List.replicate zeros '0' ++ digits)
  isDigit_whole := by simp
  isDigit_fraction c hc := (List.mem_append.1 hc).elim isDigit_of_mem_replicate (h.isDigit c)
  ne_nil := by simp

/-- The point is behind the first digit, if there is another one, and an exponent tells how far it is moved. -/
def scientific (sign : Sign) (h : Significant digits) (power : Int) : Literal where
  sign := sign
  whole := digits.take 1
  fraction := if digits.length = 1 then none else some (digits.drop 1)
  exponent := some (decide (power < 0), Nat.toDigits 10 power.natAbs)
  isDigit_whole c hc := h.isDigit c (List.mem_of_mem_take hc)
  isDigit_fraction c hc := by
    split at hc
    · simp at hc
    · exact h.isDigit c (List.mem_of_mem_drop hc)
  isDigit_exponent := by
    rintro e ⟨⟩
    exact ⟨Nat.toDigits_ne_nil, fun c hc => Nat.isDigit_of_mem_toDigits (by decide) (by decide) hc⟩
  ne_nil := by simp [h.ne_nil]

theorem shows_integer (sign : Sign) (h : Significant digits) (hexponent : 0 ≤ exponent)
    (hlimit : digits.length + exponent ≤ 21) : Shows digits exponent (integer sign h exponent.toNat) where
  body_eq := by
    simp only [body]
    rw [if_pos ⟨by omega, hlimit⟩]
    simp [integer, Literal.body, Literal.pointText, Literal.powerText]
  value_eq := by
    have hten : (10 : ℚ) ^ exponent.toNat = 10 ^ exponent := by
      rw [← zpow_natCast, Int.toNat_of_nonneg hexponent]
    simp [integer, Literal.places, Literal.power, value_append_zeros, hten]
  plain := by
    simp only [integer, true_iff]
    omega
  mantissa := by simp [integer]
  leading hhead := by
    rw [integer, List.head?_append_of_ne_nil _ h.ne_nil] at hhead
    exact absurd hhead h.head?_ne
  trailing := by simp [integer]

theorem shows_divided (sign : Sign) (h : Significant digits) {n : Nat} (hn : digits.length + exponent = n)
    (hexponent : exponent < 0) (hpoint : 0 < n) (hlimit : n ≤ 21) : Shows digits exponent (divided sign h n) where
  body_eq := by
    simp only [body]
    rw [if_neg (by omega), if_pos (by omega), hn]
    simp [divided, Literal.body, Literal.pointText, Literal.powerText]
  value_eq := by
    have hplaces : (0 : Int) - ((digits.length - n : Nat) : Int) = exponent := by omega
    simp only [divided, Literal.places, Literal.power, Option.getD_some, List.take_append_drop, List.length_drop, hplaces]
  plain := by
    simp only [divided, true_iff]
    omega
  mantissa := by simp [divided]
  leading hhead := absurd hhead (h.head?_take hpoint)
  trailing := by
    rintro ds ⟨⟩
    exact h.last_drop (by omega)

theorem shows_small (sign : Sign) (h : Significant digits) {zeros : Nat} (hzeros : digits.length + exponent = -zeros)
    (hlimit : zeros < 6) : Shows digits exponent (small sign h zeros) where
  body_eq := by
    have hpos := h.length_pos
    have hcount : (-(digits.length + exponent)).toNat = zeros := by omega
    simp only [body]
    rw [if_neg (by omega), if_neg (by omega), if_pos (by omega), hcount]
    simp [small, Literal.body, Literal.pointText, Literal.powerText]
  value_eq := by
    have hvalue : value ('0' :: (List.replicate zeros '0' ++ digits)) = value digits :=
      value_zeros_append (zeros + 1) digits
    have hplaces : (0 : Int) - ((zeros + digits.length : Nat) : Int) = exponent := by omega
    simp only [small, Literal.places, Literal.power, Option.getD_some, List.singleton_append, hvalue,
      List.length_append, List.length_replicate, hplaces]
  plain := by
    simp only [small, true_iff]
    omega
  mantissa := by simp [small]
  leading := by simp [small]
  trailing := by
    rintro ds ⟨⟩
    obtain ⟨c, hc, hne⟩ := h.last
    exact ⟨c, by rwa [List.getLast?_append_of_ne_nil _ h.ne_nil], hne⟩

theorem scientific_places (sign : Sign) (h : Significant digits) (power : Int) :
    (scientific sign h power).places = digits.drop 1 := by
  simp only [scientific, Literal.places]
  split
  · next hone => rw [List.drop_eq_nil_of_le hone.le, Option.getD_none]
  · rfl

theorem scientific_power (sign : Sign) (h : Significant digits) (power : Int) :
    (scientific sign h power).power = power := by
  have hvalue : value (Nat.toDigits 10 power.natAbs) = power.natAbs := Nat.ofDigitChars_ten_toDigits
  simp only [scientific, Literal.power, hvalue, decide_eq_true_eq]
  split <;> omega

theorem scientific_pointText (sign : Sign) (h : Significant digits) (power : Int) :
    digits.take 1 ++ (scientific sign h power).pointText =
      if digits.length = 1 then digits else digits.take 1 ++ '.' :: digits.drop 1 := by
  by_cases hone : digits.length = 1
  · simp [scientific, Literal.pointText, hone, List.take_of_length_le]
  · simp [scientific, Literal.pointText, hone]

theorem shows_scientific (sign : Sign) (h : Significant digits)
    (hpoint : digits.length + exponent ≤ -6 ∨ 21 < digits.length + exponent) :
    Shows digits exponent (scientific sign h (digits.length + exponent - 1)) where
  body_eq := by
    have hsign : (if 0 < digits.length + exponent then '+' else '-') =
        if decide (digits.length + exponent - 1 < 0) = true then '-' else '+' := by
      rcases hpoint with hlow | hhigh
      · rw [if_neg (by omega), if_pos (decide_eq_true (by omega))]
      · rw [if_pos (by omega), if_neg (by simp; omega)]
    simp only [body]
    rw [if_neg (by omega), if_neg (by omega), if_neg (by omega), ← scientific_pointText sign h, hsign, List.append_assoc]
    rfl
  value_eq := by
    have hpos := h.length_pos
    have hplaces : digits.length + exponent - 1 - ((digits.length - 1 : Nat) : Int) = exponent := by omega
    rw [scientific_places, scientific_power, List.length_drop, hplaces]
    exact congrArg (fun ds => (value ds : ℚ) * 10 ^ exponent) (List.take_append_drop 1 digits)
  plain := by
    simp only [scientific, reduceCtorEq, false_iff]
    omega
  mantissa _ := by
    have hpos := h.length_pos
    simp only [scientific, List.length_take]
    omega
  leading hhead := absurd hhead (h.head?_take Nat.one_pos)
  trailing ds hds := by
    simp only [scientific] at hds
    split at hds
    · cases hds
    · cases hds
      have hpos := h.length_pos
      exact h.last_drop (by omega)

theorem exists_shows (sign : Sign) (h : Significant digits) (exponent : Int) :
    ∃ l : Literal, l.sign = sign ∧ Shows digits exponent l := by
  by_cases hplain : -6 < digits.length + exponent ∧ digits.length + exponent ≤ 21
  · by_cases hexponent : 0 ≤ exponent
    · exact ⟨_, rfl, shows_integer sign h hexponent hplain.2⟩
    by_cases hpoint : 0 < digits.length + exponent
    · obtain ⟨n, hn⟩ := Int.eq_ofNat_of_zero_le hpoint.le
      exact ⟨_, rfl, shows_divided sign h hn (by omega) (by omega) (by omega)⟩
    · obtain ⟨zeros, hzeros⟩ := Int.exists_eq_neg_ofNat (Int.not_lt.1 hpoint)
      exact ⟨_, rfl, shows_small sign h hzeros (by omega)⟩
  · exact ⟨_, rfl, shows_scientific sign h (by omega)⟩

end Layouts

/-! ## The size of a decimal -/

section Size

variable {digits : List Char}

theorem value_lt (h : ∀ c ∈ digits, c.isDigit = true) : value digits < 10 ^ digits.length := by
  induction digits with
  | nil => decide
  | cons c cs ih =>
    have hrest := ih fun d hd => h d (List.mem_cons_of_mem c hd)
    have hc : value [c] ≤ 9 := by
      have hrange := (Char.isDigit_iff_toNat.1 (h c List.mem_cons_self)).2
      have h0 : '0'.toNat = 48 := rfl
      have h9 : '9'.toNat = 57 := rfl
      rw [value_singleton]
      omega
    calc value (c :: cs) = 10 ^ cs.length * value [c] + value cs := value_append [c] cs
      _ < 10 ^ cs.length * value [c] + 10 ^ cs.length := Nat.add_lt_add_left hrest _
      _ = 10 ^ cs.length * (value [c] + 1) := by ring
      _ ≤ 10 ^ cs.length * 10 := Nat.mul_le_mul_left _ (by omega)

theorem le_value (h : Significant digits) : 10 ^ (digits.length - 1) ≤ value digits := by
  obtain ⟨c, hhead, hne⟩ := h.first
  obtain ⟨cs, rfl⟩ := List.head?_eq_some_iff.1 hhead
  have hc : 1 ≤ value [c] := by
    have hrange := (Char.isDigit_iff_toNat.1 (h.isDigit c List.mem_cons_self)).1
    have hne' : c.toNat ≠ '0'.toNat := fun heq => hne (Char.toNat_inj.1 heq)
    rw [value_singleton]
    omega
  calc 10 ^ ((c :: cs).length - 1) ≤ 10 ^ cs.length * value [c] := Nat.le_mul_of_pos_right _ hc
    _ ≤ 10 ^ cs.length * value [c] + value cs := Nat.le_add_right ..
    _ = value (c :: cs) := (value_append [c] cs).symm

/-- A decimal whose point is at a place has there its first digit. -/
theorem magnitude_bounds (h : Significant digits) (exponent : Int) :
    (10 : ℚ) ^ (digits.length + exponent - 1) ≤ value digits * 10 ^ exponent ∧
      (value digits : ℚ) * 10 ^ exponent < 10 ^ (digits.length + exponent) := by
  have hten : (10 : ℚ) ≠ 0 := by norm_num
  have hpow : (0 : ℚ) < 10 ^ exponent := by positivity
  have hpos := h.length_pos
  constructor
  · have hle : (10 : ℚ) ^ (digits.length - 1) ≤ value digits := by exact_mod_cast le_value h
    have hexponent : (digits.length : Int) + exponent - 1 = (digits.length - 1 : Nat) + exponent := by omega
    rw [hexponent, zpow_add₀ hten, zpow_natCast]
    exact mul_le_mul_of_nonneg_right hle hpow.le
  · have hlt : (value digits : ℚ) < 10 ^ digits.length := by exact_mod_cast value_lt h.isDigit
    rw [zpow_add₀ hten, zpow_natCast]
    exact mul_lt_mul_of_pos_right hlt hpow

/-- The notation is decided by the size. -/
theorem near_iff (h : Significant digits) (exponent : Int) :
    -6 < digits.length + exponent ∧ digits.length + exponent ≤ 21 ↔
      (10 : ℚ) ^ (-6 : Int) ≤ value digits * 10 ^ exponent ∧ (value digits : ℚ) * 10 ^ exponent < 10 ^ (21 : Int) := by
  obtain ⟨hlow, hhigh⟩ := magnitude_bounds h exponent
  have hmono : ∀ {a b : Int}, a ≤ b → (10 : ℚ) ^ a ≤ 10 ^ b := fun hab => zpow_le_zpow_right₀ (by norm_num) hab
  refine and_congr ⟨fun hpoint => (hmono (by omega)).trans hlow, fun hle => ?_⟩
    ⟨fun hpoint => hhigh.trans_le (hmono hpoint), fun hlt => ?_⟩
  · by_contra hpoint
    exact absurd (hle.trans_lt hhigh) (not_lt.2 (hmono (by omega)))
  · by_contra hpoint
    exact absurd (hlow.trans_lt hlt) (not_lt.2 (hmono (by omega)))

end Size

/-! ## The text of a decimal -/

/-- Only an exponent brings the letter into a literal. -/
theorem e_not_mem_text_iff (l : Literal) : 'e' ∉ l.text ↔ l.exponent = none := by
  have hletter : 'e'.isDigit ≠ true := by decide
  have hsign : 'e' ∉ l.sign.text := by
    cases l.sign <;> decide
  have hwhole : 'e' ∉ l.whole := fun h => hletter (l.isDigit_whole 'e' h)
  have hpoint : 'e' ∉ l.pointText := by
    have hplaces := l.isDigit_fraction
    cases hfraction : l.fraction with
    | none => simp [Literal.pointText, hfraction]
    | some ds =>
      rw [hfraction, Option.getD_some] at hplaces
      have hds : 'e' ∉ ds := fun h => hletter (hplaces 'e' h)
      simp [Literal.pointText, hfraction, hds]
  have hpower : 'e' ∉ l.powerText ↔ l.exponent = none := by
    cases hexponent : l.exponent with
    | none => simp [Literal.powerText, hexponent]
    | some e => simp [Literal.powerText, hexponent]
  rw [Literal.text, Literal.body, List.mem_append, List.mem_append, List.mem_append, ← hpower]
  tauto

theorem abs_signed (negative : Bool) {magnitude : ℚ} (h : 0 ≤ magnitude) : |signed negative magnitude| = magnitude := by
  cases negative with
  | true => exact (abs_neg magnitude).trans (abs_of_nonneg h)
  | false => exact abs_of_nonneg h

theorem layout_eq_text {negative : Bool} {digits : List Char} {exponent : Int} {l : Literal}
    (hsign : l.sign = .ofNegative negative) (h : Shows digits exponent l) :
    layout negative digits exponent = String.ofList l.text := by
  rw [layout, h.body_eq, Literal.text, hsign]
  cases negative <;> rfl

/-- **The text of a decimal denotes it.** It is a decimal literal, whose value by its places is the decimal, and as
this number it is read. It does without an exponent from 10⁻⁶ up to 10²¹; else an exponent with its sign stands behind
one digit and what follows the point. It has no zero that could be left out. -/
theorem layout_denotes (negative : Bool) {digits : List Char} (h : Significant digits) (exponent : Int) :
    ∃ l : Literal, layout negative digits exponent = String.ofList l.text ∧
      l.sign = .ofNegative negative ∧
      l.rational = signed negative (value digits * 10 ^ exponent) ∧
      (read? (layout negative digits exponent)).bind rational? = some l.rational ∧
      ('e' ∉ (layout negative digits exponent).toList ↔ l.exponent = none) ∧
      (l.exponent = none ↔ 10 ^ (-6 : Int) ≤ |l.rational| ∧ |l.rational| < 10 ^ (21 : Int)) ∧
      Tidy l := by
  obtain ⟨l, hsign, hshows⟩ := exists_shows (.ofNegative negative) h exponent
  have htext := layout_eq_text hsign hshows
  have hrational : l.rational = signed negative (value digits * 10 ^ exponent) := by
    rw [l.rational_eq, hshows.value_eq, hsign, Sign.negative_ofNegative]
  refine ⟨l, htext, hsign, hrational, ?_, ?_, ?_, hshows.toTidy⟩
  · rw [htext, l.rational?_read?]
  · rw [htext, String.toList_ofList]
    exact e_not_mem_text_iff l
  · rw [hrational, abs_signed negative (by positivity)]
    exact hshows.plain.trans (near_iff h exponent)

/-- Three digits before a point that is 22 places away. -/
theorem layout_denotes_far :
    Significant ['1', '2', '5'] ∧ layout true ['1', '2', '5'] 19 = "-1.25e+21" ∧
      ∃ l : Literal, "-1.25e+21" = String.ofList l.text ∧ l.rational = -1250000000000000000000 ∧
        (read? "-1.25e+21").bind rational? = some (-1250000000000000000000) ∧ l.exponent ≠ none ∧
        l.whole.length = 1 := by
  have hdigits : Significant ['1', '2', '5'] := ⟨by simp, ⟨'1', rfl, by decide⟩, ⟨'5', rfl, by decide⟩⟩
  have htext : layout true ['1', '2', '5'] 19 = "-1.25e+21" := by decide +kernel
  obtain ⟨l, hl, -, hrational, hread, -, hplain, htidy⟩ := layout_denotes true hdigits 19
  have hvalue : l.rational = -1250000000000000000000 := by
    have h125 : value ['1', '2', '5'] = 125 := rfl
    rw [hrational, h125]
    norm_num [signed]
  have hfar : l.exponent ≠ none := fun hnone => absurd (hplain.1 hnone).2 (by rw [hvalue]; norm_num)
  rw [htext] at hl hread
  exact ⟨hdigits, htext, l, hl, hvalue, hvalue ▸ hread, hfar, htidy.mantissa hfar⟩

end Decimal

end NestedStyles
