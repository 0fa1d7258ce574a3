import NestedStyles.Color
import NestedStyles.Proofs.Number.Nearest

/-!
# Color channels are monotone

A fraction of one becomes a channel by two rounded operations and a floor. Each of the three is monotone, so the
channel is; and since zero and one become 0 and 255 exactly, the fractions between them become whole numbers between
these.

- `Double.rational?`: the number that a finite double is.
- `Double.channel?_eq_some_iff`: the steps from a double to its channel.
- `Double.channel?_mono`: a larger double has no smaller channel.
- `Double.exists_channel?`: doubles from zero to one have channels from 0 to 255.
- `Color.channel_mono_inRange`: the same for the texts of arguments.
-/

namespace NestedStyles

namespace Double

/-- The number that a finite double is. -/
def rational? : Double → Option ℚ
  | finite units => some (units / one)
  | _ => none

section Channels

variable {units units' m n : Int}

theorem one_pos : 0 < one := by decide +kernel

theorem channel?_eq_some_iff :
    (finite units).channel? = some n ↔ ∃ product sum : Int, ofInt (units * 255) = finite product ∧
      ofInt (product + half) = finite sum ∧ sum.fdiv one = n := by
  constructor
  · intro h
    unfold channel? at h
    dsimp only at h
    split at h
    · next product hproduct =>
      split at h
      · next sum hsum => exact ⟨product, sum, hproduct, hsum, Option.some.inj h⟩
      · cases h
    · cases h
  · rintro ⟨product, sum, hproduct, hsum, rfl⟩
    unfold channel?
    dsimp only
    rw [hproduct]
    dsimp only
    rw [hsum]

/-- **A larger double has no smaller channel.** -/
theorem channel?_mono (hm : (finite units).channel? = some m) (hn : (finite units').channel? = some n)
    (h : units ≤ units') : m ≤ n := by
  obtain ⟨product, sum, hproduct, hsum, rfl⟩ := channel?_eq_some_iff.1 hm
  obtain ⟨product', sum', hproduct', hsum', rfl⟩ := channel?_eq_some_iff.1 hn
  have hproducts : product ≤ product' := ofInt_mono hproduct hproduct' (by omega)
  have hsums : sum ≤ sum' := ofInt_mono hsum hsum' (by omega)
  have hone : (0 : Int) ≤ one := Int.natCast_nonneg one
  rw [Int.fdiv_eq_ediv_of_nonneg _ hone, Int.fdiv_eq_ediv_of_nonneg _ hone]
  exact Int.ediv_le_ediv (Int.natCast_pos.2 one_pos) hsums

theorem channel?_zero : (finite 0).channel? = some 0 := by decide +kernel

theorem channel?_one : (finite one).channel? = some 255 := by decide +kernel

/-- **Doubles from zero to one have channels from 0 to 255.** -/
theorem exists_channel? (hlow : 0 ≤ units) (hhigh : units ≤ one) :
    ∃ n, (finite units).channel? = some n ∧ 0 ≤ n ∧ n ≤ 255 := by
  -- the product is not larger than that for one, which is finite
  obtain ⟨top, _, htop, -, -⟩ := channel?_eq_some_iff.1 channel?_one
  have hlt : nearest (units * 255).natAbs 1 < limit :=
    Nat.lt_of_le_of_lt (nearest_one_mono (by omega)) (ofInt_eq_finite htop).2
  obtain ⟨product, hproduct⟩ := exists_ofInt hlt
  obtain ⟨sum, hsum⟩ := exists_ofInt_add_half hproduct
  have hchannel : (finite units).channel? = some (sum.fdiv one) :=
    channel?_eq_some_iff.2 ⟨product, sum, hproduct, hsum, rfl⟩
  exact ⟨_, hchannel, channel?_mono channel?_zero hchannel hlow, channel?_mono hchannel channel?_one hhigh⟩

end Channels

theorem rational?_eq_some_iff {d : Double} {x : ℚ} :
    d.rational? = some x ↔ ∃ units : Int, d = finite units ∧ x = units / one := by
  constructor
  · intro h
    cases d with
    | finite units => exact ⟨units, rfl, (Option.some.inj h).symm⟩
    | infinite negative | nan => cases h
  · rintro ⟨units, rfl, rfl⟩
    rfl

end Double

namespace Color

theorem channel_eq_ok_iff {s : String} {d : Double} (h : Double.read? s = some d) {n : Int} :
    channel s = .ok n ↔ d.channel? = some n := by
  simp only [channel, h]
  split
  · next m hm => simp [hm]
  · next hnone => simp [hnone]

theorem channel_of_rational?_eq_none {s : String} (h : (Double.read? s).bind Double.rational? = none) :
    channel s = .ok 0 := by
  cases hread : Double.read? s with
  | none => rw [channel, hread]
  | some d =>
    rw [hread, Option.bind_some] at h
    refine (channel_eq_ok_iff hread).2 ?_
    cases d with
    | finite units => cases h
    | infinite negative | nan => rfl

/-- **Channels are monotone and stay in range.** Of two arguments that are read as finite doubles and do not overflow,
the larger has no smaller channel. An argument that is read as a double from zero to one has a channel from 0 to 255.
An argument that is not read as a finite double has the channel 0. -/
theorem channel_mono_inRange :
    (∀ (s t : String) (x y : ℚ) (m n : Int), (Double.read? s).bind Double.rational? = some x →
      (Double.read? t).bind Double.rational? = some y → x ≤ y → channel s = .ok m → channel t = .ok n → m ≤ n) ∧
    (∀ (s : String) (x : ℚ), (Double.read? s).bind Double.rational? = some x → 0 ≤ x → x ≤ 1 →
      ∃ n, channel s = .ok n ∧ 0 ≤ n ∧ n ≤ 255) ∧
    ∀ s : String, (Double.read? s).bind Double.rational? = none → channel s = .ok 0 := by
  have hone : (0 : ℚ) < Double.one := Nat.cast_pos.2 Double.one_pos
  refine ⟨fun s t x y m n hs ht hxy hm hn => ?_, fun s x hs hlow hhigh => ?_, fun s => channel_of_rational?_eq_none⟩
  · obtain ⟨d, hd, hx⟩ := Option.bind_eq_some_iff.1 hs
    obtain ⟨e, he, hy⟩ := Option.bind_eq_some_iff.1 ht
    obtain ⟨units, rfl, rfl⟩ := Double.rational?_eq_some_iff.1 hx
    obtain ⟨units', rfl, rfl⟩ := Double.rational?_eq_some_iff.1 hy
    have hunits : units ≤ units' := by exact_mod_cast (div_le_div_iff_of_pos_right hone).1 hxy
    exact Double.channel?_mono ((channel_eq_ok_iff hd).1 hm) ((channel_eq_ok_iff he).1 hn) hunits
  · obtain ⟨d, hd, hx⟩ := Option.bind_eq_some_iff.1 hs
    obtain ⟨units, rfl, rfl⟩ := Double.rational?_eq_some_iff.1 hx
    have hlow' : 0 ≤ units := by
      rw [le_div_iff₀ hone, zero_mul] at hlow
      exact_mod_cast hlow
    have hhigh' : units ≤ Double.one := by exact_mod_cast (div_le_one hone).1 hhigh
    obtain ⟨n, hchannel, hbounds⟩ := Double.exists_channel? hlow' hhigh'
    exact ⟨n, (channel_eq_ok_iff hd).2 hchannel, hbounds⟩

/-- One half, one, and text that is no number. -/
theorem channel_mono_inRange_samples :
    (Double.read? "0.5").bind Double.rational? = some (1 / 2 : ℚ) ∧
      (Double.read? "1").bind Double.rational? = some (1 : ℚ) ∧
      channel "0.5" = .ok 128 ∧ channel "1" = .ok 255 ∧ (128 : Int) ≤ 255 ∧
      (∃ n, channel "1" = .ok n ∧ 0 ≤ n ∧ n ≤ 255) ∧ channel "half" = .ok 0 := by
  have hpos : (Double.one : ℚ) ≠ 0 := Nat.cast_ne_zero.2 Double.one_pos.ne'
  have hdouble : (Double.half : ℚ) * 2 = Double.one := by
    have hnat : Double.half * 2 = Double.one := by decide +kernel
    exact_mod_cast hnat
  have hhalf : (Double.read? "0.5").bind Double.rational? = some (1 / 2 : ℚ) := by
    have hread : Double.read? "0.5" = some (.finite Double.half) := by decide +kernel
    rw [hread, Option.bind_some, Double.rational?_eq_some_iff]
    refine ⟨_, rfl, ?_⟩
    rw [Int.cast_natCast, div_eq_div_iff two_ne_zero hpos, one_mul, hdouble]
  have hone : (Double.read? "1").bind Double.rational? = some (1 : ℚ) := by
    have hread : Double.read? "1" = some (.finite Double.one) := by decide +kernel
    rw [hread, Option.bind_some, Double.rational?_eq_some_iff]
    refine ⟨_, rfl, ?_⟩
    rw [Int.cast_natCast, div_self hpos]
  have hword : (Double.read? "half").bind Double.rational? = none := by
    have hread : Double.read? "half" = none := by decide +kernel
    rw [hread, Option.bind_none]
  have hmiddle : channel "0.5" = .ok 128 := by decide +kernel
  have htop : channel "1" = .ok 255 := by decide +kernel
  obtain ⟨hmono, hrange, hother⟩ := channel_mono_inRange
  exact ⟨hhalf, hone, hmiddle, htop, hmono _ _ _ _ _ _ hhalf hone (by linarith) hmiddle htop,
    hrange _ _ hone zero_le_one le_rfl, hother _ hword⟩

end Color

end NestedStyles
