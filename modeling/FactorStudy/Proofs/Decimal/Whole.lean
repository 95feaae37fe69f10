import FactorStudy.Proofs.Double.Finite

/-!
# Whole numbers read from decimals

A decimal is read as a double that keeps the order (`nearest_cases`), so one that is read as a count
lies between the doubles next to that count. For counts of up to 17 bits these are `2 ^ -36` away. A
whole decimal is therefore read as itself, and a decimal that is not whole can be read as a count
only when it is closer to it than that (`abs_sub_lt_of_nearest`).
-/

namespace FactorStudy.Double

open Float.Model (Format UnpackedFloat)
open Float.Model.UnpackedFloat

/-! ## A minus in front of a double -/

theorem unpack_neg (x : Float) : (-x).toModel.unpack = x.toModel.unpack.neg := by
  show unpack Format.binary64 (pack Format.binary64 x.toModel.unpack.neg) = _
  cases hx : x.toModel.unpack with
  | notANumber => exact unpack_pack_nan
  | infinity s => exact unpack_pack_infinity _
  | zero s => exact unpack_pack_zero _
  | finite s m e hm => exact unpack_pack (finite_of_unpack hx) _

theorem neg_neg (x : Float) : - -x = x := by
  refine eq_of_unpack ?_
  rw [unpack_neg, unpack_neg]
  cases x.toModel.unpack with
  | notANumber => rfl
  | infinity s => cases s <;> rfl
  | zero s => cases s <;> rfl
  | finite s m e hm => cases s <;> rfl

theorem isFinite_neg (x : Float) : (-x).isFinite = x.isFinite := by
  show (-x).toModel.unpack.isFinite = x.toModel.unpack.isFinite
  rw [unpack_neg]
  cases x.toModel.unpack <;> rfl

theorem signOf_of_unpack_zero {x : Float} {s : Sign} (h : x.toModel.unpack = .zero s) :
    signOf x = s := by
  have hfinite : x.toModel.unpack.isFinite = true := by
    rw [h]
    rfl
  rcases unpack_eq_dyadic x hfinite with ⟨hzero, -⟩ | ⟨hm, hread⟩
  · exact UnpackedFloat.zero.inj (hzero.symm.trans h)
  · cases hread.symm.trans h

theorem signOf_of_unpack_finite {x : Float} {s : Sign} {m : ℕ} {e : ℤ} {hm : 0 < m}
    (h : x.toModel.unpack = .finite s m e hm) : signOf x = s := by
  rcases unpack_eq_dyadic x (isFinite_of_unpack_finite h) with ⟨hzero, -⟩ | ⟨hm', hread⟩
  · cases hzero.symm.trans h
  · exact (UnpackedFloat.finite.inj (hread.symm.trans h)).1

theorem isNegative_of_signOf {x : Float} (h : signOf x = .negative) :
    Decimal.isNegative x = true := by
  unfold signOf at h
  split at h
  · assumption
  · cases h

/-- A minus leaves the magnitude as it is. -/
theorem value_dyadic_neg {x : Float} (hx : x.isFinite = true) :
    (Decimal.dyadic (-x)).value = (Decimal.dyadic x).value := by
  have hneg := unpack_neg x
  rcases unpack_eq_dyadic x hx with ⟨hzero, hm⟩ | ⟨hm, hfinite⟩
  · rw [hzero] at hneg
    rcases unpack_eq_dyadic (-x) ((isFinite_neg x).trans hx) with ⟨-, hm'⟩ | ⟨hm', hfinite'⟩
    · rw [Decimal.Dyadic.value, Decimal.Dyadic.value, hm, hm', Nat.cast_zero, zero_mul, zero_mul]
    · cases hneg.symm.trans hfinite'
  · rw [hfinite] at hneg
    rcases unpack_eq_dyadic (-x) ((isFinite_neg x).trans hx) with ⟨hzero', -⟩ | ⟨hm', hfinite'⟩
    · cases hneg.symm.trans hzero'
    · obtain ⟨-, hmantissa, hexponent⟩ := UnpackedFloat.finite.inj (hneg.symm.trans hfinite')
      rw [Decimal.Dyadic.value, Decimal.Dyadic.value, hmantissa, hexponent]

end FactorStudy.Double

namespace FactorStudy.Decimal

open Double
open Float.Model (Format)
open Float.Model.UnpackedFloat

/-! ## The order of decimals -/

theorem digitCount_le_log2 {n : ℕ} (hn : 0 < n) : digitCount n ≤ n.log2 + 1 := by
  have hpow : 2 ^ (digitCount n - 1) ≤ n :=
    Nat.le_trans (Nat.pow_le_pow_left (by decide) _) (ten_pow_le hn)
  have hlog := (Nat.le_log2 (Nat.ne_of_gt hn)).mpr hpow
  omega

/-- A decimal is read as a zero, if it is smaller than every double, as a double that keeps the
order, or as an infinity. -/
theorem nearest_cases {n : ℕ} (hn : 0 < n) (e : ℤ) :
    ((nearest n e).toModel.unpack = .zero .positive ∧
        ∀ c : Dyadic, c.Canonical → (n : ℚ) * 10 ^ e < c.value) ∨
      (∃ (d : Dyadic) (hd : Finite d),
        (nearest n e).toModel.unpack = .finite .positive d.mantissa d.exponent hd.pos ∧
        (∀ c : Dyadic, c.Canonical → c.value ≤ n * 10 ^ e → c.value ≤ d.value) ∧
        ∀ c : Dyadic, c.Canonical → n * 10 ^ e ≤ c.value → d.value ≤ c.value) ∨
      (nearest n e).toModel.unpack = .infinity .positive := by
  rw [nearest, if_neg (Nat.ne_of_gt hn)]
  simp only
  split_ifs with hhigh hlow
  · -- more digits before the point than any double has
    exact Or.inr (Or.inr rfl)
  · -- so many places behind it that the smallest double is larger
    refine Or.inl ⟨rfl, fun c hc => ?_⟩
    have hsmall := mul_two_pow_lt_one hlow
    have hleast := Near.le_of_low hc c.near_value
    exact lt_of_mul_lt_mul_right (hsmall.trans_le hleast) (by positivity)
  · -- between the two limits the number is rounded, and rounding keeps the order
    have hlength := digitCount_le_log2 hn
    unfold digitCount at hlength
    obtain ⟨u, hrounds, hread⟩ := exists_rounds hn (show e ≤ 2048 by omega) (by omega)
    rw [hread, unpack_ofModel]
    rcases hrounds.cases with ⟨rfl, hsmall⟩ | ⟨d, hd, rfl, hle, hge⟩
    · exact Or.inl ⟨unpack_pack_zero _, hsmall⟩
    · right
      by_cases hfinite : d.exponent ≤ 971
      · exact Or.inl ⟨d, ⟨hd, hfinite⟩, unpack_pack ⟨hd, hfinite⟩ _, hle, hge⟩
      · exact Or.inr (unpack_pack_overflow hd (by omega) _)

/-- What a decimal is read as lies on the same side of every double, unless it is infinite. -/
theorem value_nearest {n : ℕ} (hn : 0 < n) {e : ℤ} (hfinite : (nearest n e).isFinite = true)
    {c : Dyadic} (hc : c.Canonical) :
    (c.value ≤ n * 10 ^ e → c.value ≤ (dyadic (nearest n e)).value) ∧
      (n * 10 ^ e ≤ c.value → (dyadic (nearest n e)).value ≤ c.value) := by
  rcases unpack_eq_dyadic _ hfinite with ⟨hread, hm⟩ | ⟨hm, hread⟩
  · -- a zero is read only from what is below every double above 0
    have hzero : (dyadic (nearest n e)).value = 0 := by
      rw [Dyadic.value, hm, Nat.cast_zero, zero_mul]
    rcases nearest_cases hn e with ⟨-, hsmall⟩ | ⟨d, hd, hunpack, -⟩ | hinf
    · exact ⟨fun hle => absurd (hsmall c hc) (not_lt.mpr hle), fun _ =>
        hzero ▸ (Near.pos hc c.near_value).le⟩
    · cases hread.symm.trans hunpack
    · cases hread.symm.trans hinf
  · rcases nearest_cases hn e with ⟨hzero, -⟩ | ⟨d, hd, hunpack, hle, hge⟩ | hinf
    · cases hread.symm.trans hzero
    · -- the double is the one that keeps the order
      obtain ⟨-, hmantissa, hexponent⟩ :=
        Float.Model.UnpackedFloat.finite.inj (hread.symm.trans hunpack)
      have hvalue : (dyadic (nearest n e)).value = d.value := by
        rw [Dyadic.value, hmantissa, hexponent, Dyadic.value]
      rw [hvalue]
      exact ⟨hle c hc, hge c hc⟩
    · cases hread.symm.trans hinf

/-- A decimal that is read as a count lies close to it: not beyond the doubles next to it. -/
theorem abs_sub_lt_of_nearest {n : ℕ} {e : ℤ} {k : ℕ} (hk : k < 2 ^ 17)
    (hfinite : (nearest n e).isFinite = true) (hvalue : (dyadic (nearest n e)).value = k) :
    |(n : ℚ) * 10 ^ e - k| < 1 / 2 ^ 36 := by
  -- in units of `2 ^ -36`, the count and its neighbours are short enough for doubles
  have hunits : ∀ {m : ℕ}, 0 < m → m < 2 ^ 53 →
      ∃ c : Dyadic, c.Canonical ∧ c.value = m / 2 ^ 36 := by
    intro m hpos hlt
    have hlog : m.log2 < 53 := (Nat.log2_lt (Nat.ne_of_gt hpos)).mpr hlt
    obtain ⟨c, hc, -, hvalue⟩ := exists_dyadic hpos hlt (e := -36) (by decide) (by omega)
    rw [zpow_neg, ← div_eq_mul_inv] at hvalue
    exact ⟨c, hc.toCanonical, hvalue⟩
  rcases Nat.eq_zero_or_pos n with rfl | hn
  · have hzero : (dyadic (nearest 0 e)).value = 0 := by
      rw [nearest, if_pos rfl, Dyadic.value, show (dyadic 0).mantissa = 0 by decide +kernel,
        Nat.cast_zero, zero_mul]
    rw [← hvalue, hzero, Nat.cast_zero, zero_mul, sub_zero, abs_zero]
    positivity
  · obtain ⟨above, habove, haboveValue⟩ := hunits (m := k * 2 ^ 36 + 1) (by omega) (by omega)
    have hupper : (n : ℚ) * 10 ^ e < above.value := by
      by_contra hle
      have hread := (value_nearest hn hfinite habove).1 (not_lt.mp hle)
      rw [hvalue, haboveValue] at hread
      push_cast at hread
      linarith
    have hlower : (k : ℚ) - 1 / 2 ^ 36 < n * 10 ^ e := by
      rcases Nat.eq_zero_or_pos k with rfl | hpos
      · have hq : (0 : ℚ) < n * 10 ^ e := by positivity
        rw [Nat.cast_zero]
        linarith
      · obtain ⟨below, hbelow, hbelowValue⟩ := hunits (m := k * 2 ^ 36 - 1) (by omega) (by omega)
        rw [Nat.cast_sub (by omega)] at hbelowValue
        push_cast at hbelowValue
        by_contra hle
        have hread := (value_nearest hn hfinite hbelow).2 (by linarith)
        rw [hvalue] at hread
        linarith
    rw [haboveValue] at hupper
    push_cast at hupper
    rw [abs_lt]
    constructor
    · linarith
    · linarith

/-- A minus in front of a decimal is the sign of what is read. -/
theorem isNegative_neg_nearest {n : ℕ} {e : ℤ} (hfinite : (nearest n e).isFinite = true) :
    isNegative (-nearest n e) = true := by
  rcases Nat.eq_zero_or_pos n with rfl | hn
  · rw [nearest, if_pos rfl]
    decide +kernel
  · have hneg := unpack_neg (nearest n e)
    refine isNegative_of_signOf ?_
    rcases nearest_cases hn e with ⟨hunpack, -⟩ | ⟨d, hd, hunpack, -⟩ | hunpack
    · rw [hunpack] at hneg
      exact signOf_of_unpack_zero hneg
    · rw [hunpack] at hneg
      exact signOf_of_unpack_finite hneg
    · have hread : (nearest n e).toModel.unpack.isFinite = true := hfinite
      rw [hunpack] at hread
      cases hread

/-- The integer in a double is its value, when it is a whole number within the range. -/
theorem value_of_toInteger {x : Float} (hwhole : isWhole x = true) {k : ℕ} (hk : k < 2 ^ 63 - 1)
    (h : toInteger x = k) : (dyadic x).value = k ∧ (isNegative x = true → k = 0) := by
  obtain ⟨hfinite, hdvd⟩ := Bool.and_eq_true_iff.mp hwhole
  have hnan : x.isNaN = false := isNaN_of_isFinite hfinite
  -- the range is too small for the double to be capped
  have hfloor : (dyadic x).floor = k ∧ (isNegative x = true → k = 0) := by
    simp only [toInteger, hnan, hfinite, if_true, Bool.false_eq_true, if_false] at h
    have htop : Nat.pow 2 63 = 9223372036854775808 := rfl
    split at h
    · rename_i hneg
      exact ⟨by omega, fun _ => by omega⟩
    · rename_i hneg
      exact ⟨by omega, fun h => absurd h hneg⟩
  refine ⟨?_, hfloor.2⟩
  have hmod : (dyadic x).num % (dyadic x).den = 0 := beq_iff_eq.mp hdvd
  have hnum : (dyadic x).num = k * (dyadic x).den := by
    rw [← hfloor.1, Dyadic.floor, Nat.div_mul_cancel (Nat.dvd_of_mod_eq_zero hmod)]
  have hden : ((dyadic x).den : ℚ) ≠ 0 := by exact_mod_cast Nat.ne_of_gt (den_pos _)
  rw [Dyadic.value_eq_div, hnum, Nat.cast_mul, mul_div_assoc, div_self hden, mul_one]

end FactorStudy.Decimal
