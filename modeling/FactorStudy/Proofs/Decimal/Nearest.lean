import FactorStudy.Proofs.Double.Operations
import FactorStudy.Proofs.Decimal.Shortest
import FactorStudy.Decimal.Numeral

/-!
# A decimal is read as the double it is near to

Three ways lead from a decimal to a double: short decimals are computed from two exact doubles,
long ones in integer arithmetic, and decimals far outside the range are not computed at all. On a
decimal near a double all three agree that the double is the result (`nearest_of_near`).
-/

namespace FactorStudy.Double

open Float.Model (Format UnpackedFloat)
open Float.Model.UnpackedFloat

variable {d : Decimal.Dyadic}

/-! ## The range of doubles -/

theorem Near.lt_two_pow (hd : Finite d) {q : ℚ} (h : d.Near q) : q < 2 ^ 1024 := by
  have hmax : (d.mantissa : ℚ) + 1 ≤ 2 ^ 53 := by exact_mod_cast hd.lt
  have hscaled : q / 2 ^ d.exponent < 2 ^ 53 := by linarith [h.upper]
  have hpow : (2 : ℚ) ^ d.exponent ≤ 2 ^ (971 : ℤ) := zpow_le_zpow_right₀ one_le_two hd.high
  rw [div_lt_iff₀ (by positivity)] at hscaled
  calc q < 2 ^ 53 * 2 ^ d.exponent := hscaled
    _ ≤ 2 ^ 53 * 2 ^ (971 : ℤ) := mul_le_mul_of_nonneg_left hpow (by positivity)
    _ = 2 ^ 1024 := by rw [zpow_ofNat, ← pow_add]

theorem Near.le_of_low (hd : d.Canonical) {q : ℚ} (h : d.Near q) : 1 ≤ q * 2 ^ 1075 := by
  have hone : (1 : ℚ) ≤ d.mantissa := by exact_mod_cast hd.pos
  have hscaled : 1 / 2 ≤ q / 2 ^ d.exponent := by linarith [h.lower, d.gapBelow_le]
  have hpow : (2 : ℚ) ^ (-1074 : ℤ) ≤ 2 ^ d.exponent := zpow_le_zpow_right₀ one_le_two hd.low
  rw [le_div_iff₀ (by positivity)] at hscaled
  have hmin : (2 : ℚ) ^ (-1074 : ℤ) * 2 ^ 1075 = 2 := by
    rw [← zpow_natCast, ← zpow_add₀ two_ne_zero]
    exact zpow_one 2
  calc (1 : ℚ) = 1 / 2 * 2 := by norm_num
    _ = 1 / 2 * 2 ^ (-1074 : ℤ) * 2 ^ 1075 := by rw [mul_assoc, hmin]
    _ ≤ 1 / 2 * 2 ^ d.exponent * 2 ^ 1075 :=
      mul_le_mul_of_nonneg_right (mul_le_mul_of_nonneg_left hpow (by norm_num)) (by positivity)
    _ ≤ q * 2 ^ 1075 := mul_le_mul_of_nonneg_right hscaled (by positivity)

/-! ## Long decimals -/

section Powers

variable {n k a : ℕ}

-- both are used for powers of two that are never to be computed, so they are stated for any `a`
theorem two_pow_le_mul (hn : 0 < n) (h : a ≤ k) : 2 ^ a ≤ n * 10 ^ k :=
  calc 2 ^ a ≤ 2 ^ k := Nat.pow_le_pow_right (by decide) h
    _ ≤ 10 ^ k := Nat.pow_le_pow_left (by decide) k
    _ ≤ n * 10 ^ k := Nat.le_mul_of_pos_left _ hn

theorem mul_two_pow_lt (h : n.log2 + 1 + a ≤ k) : n * 2 ^ a < 10 ^ k :=
  calc n * 2 ^ a < 2 ^ (n.log2 + 1) * 2 ^ a :=
        Nat.mul_lt_mul_of_pos_right Nat.lt_log2_self (Nat.two_pow_pos a)
    _ = 2 ^ (n.log2 + 1 + a) := (Nat.pow_add _ _ _).symm
    _ ≤ 2 ^ k := Nat.pow_le_pow_right (by decide) h
    _ ≤ 10 ^ k := Nat.pow_le_pow_left (by decide) k

end Powers

/-- A decimal near a double has no huge exponent. -/
theorem Near.exponent_le (hd : Finite d) {n : ℕ} (hn : 0 < n) {e : ℤ} (h : d.Near (n * 10 ^ e)) :
    e ≤ 2048 := by
  by_contra hlt
  obtain ⟨k, rfl⟩ := Int.eq_ofNat_of_zero_le (show 0 ≤ e by omega)
  have hhigh := Near.lt_two_pow hd h
  rw [zpow_natCast] at hhigh
  have hnat : n * 10 ^ k < 2 ^ 1024 := by exact_mod_cast hhigh
  exact Nat.not_lt_of_le (two_pow_le_mul hn (by omega)) hnat

/-- Nor a tiny one, measured by the length of its digits. -/
theorem Near.le_exponent (hd : d.Canonical) {n : ℕ} {e : ℤ} (h : d.Near (n * 10 ^ e)) :
    -(2048 + (n.log2 : ℤ)) ≤ e := by
  by_contra hlt
  obtain ⟨k, hk⟩ : ∃ k : ℕ, e = -k := ⟨(-e).toNat, by omega⟩
  have hlow := Near.le_of_low hd h
  rw [hk, zpow_neg, zpow_natCast, ← div_eq_mul_inv, div_mul_eq_mul_div,
    le_div_iff₀ (by positivity), one_mul] at hlow
  have hnat : 10 ^ k ≤ n * 2 ^ 1075 := by exact_mod_cast hlow
  exact Nat.not_lt_of_le hnat (mul_two_pow_lt (by omega))

/-- Within these limits a decimal is computed to enough places. -/
theorem rounds_ofScientific {n : ℕ} {e : ℤ} (hn : 0 < n) (hhigh : e ≤ 2048)
    (hlow : -(2048 + (n.log2 : ℤ)) ≤ e) :
    Rounds (ofScientific Format.binary64 n e) .positive (n * 10 ^ e) := by
  have hbig : ¬ e > 2 ^ Format.binary64.exponentBits := by
    show ¬ e > 2048
    omega
  have hsmall : ¬ e < -((2 ^ Format.binary64.exponentBits : ℤ) + n.log2) := by
    show ¬ e < -(2048 + (n.log2 : ℤ))
    omega
  rw [ofScientific, dif_neg (Nat.ne_of_gt hn), if_neg hbig, if_neg hsmall]
  split
  · -- a product, whose first factor is shifted to full length
    rename_i he
    obtain ⟨k, rfl⟩ := Int.eq_ofNat_of_zero_le he
    have hvalue : ((n <<< Format.binary64.mantissaBits : ℕ) : ℚ) *
        2 ^ (-(Format.binary64.mantissaBits : ℤ)) * ((10 ^ (k : ℤ).toNat : ℕ) * 2 ^ (0 : ℤ)) =
          n * 10 ^ (k : ℤ) := by
      rw [Nat.shiftLeft_eq, Int.toNat_natCast, zpow_neg, zpow_natCast, zpow_natCast]
      push_cast
      field_simp
    have hlong : 2 ^ 52 ≤ (n <<< Format.binary64.mantissaBits) * 10 ^ (k : ℤ).toNat := by
      rw [Nat.shiftLeft_eq]
      calc 2 ^ 52 ≤ n * 2 ^ 53 := by omega
        _ ≤ n * 2 ^ 53 * 10 ^ (k : ℤ).toNat := Nat.le_mul_of_pos_right _ (Nat.pow_pos (by decide))
    rw [← hvalue]
    exact rounds_mul (Or.inl hlong) .positive .positive _ _
  · -- a quotient by a power of ten
    rename_i he
    obtain ⟨k, rfl⟩ : ∃ k : ℕ, e = -k := ⟨(-e).toNat, by omega⟩
    have hvalue : ((n : ℚ) * 2 ^ (0 : ℤ)) / ((10 ^ (-(-(k : ℤ))).toNat : ℕ) * 2 ^ (0 : ℤ)) =
        n * 10 ^ (-(k : ℤ)) := by
      rw [Int.neg_neg, Int.toNat_natCast, zpow_neg, zpow_natCast, zpow_zero, mul_one, mul_one,
        div_eq_mul_inv]
      push_cast
      rfl
    rw [← hvalue]
    exact rounds_div .positive .positive _ _

/-! ## Short decimals -/

/-- The table of powers of ten holds them exactly. -/
theorem powersOfTen_exact (e : Fin 23) :
    let x := Float.exactlyRepresentablePowersOfTen[e]
    x.isFinite = true ∧ Decimal.isNegative x = false ∧ 2 ^ 52 ≤ (Decimal.dyadic x).mantissa ∧
      (Decimal.dyadic x).mantissa * 2 ^ (Decimal.dyadic x).exponent.toNat =
        10 ^ e.val * 2 ^ (-(Decimal.dyadic x).exponent).toNat := by
  revert e
  decide +kernel

theorem exists_powerOfTen {e : ℕ} (he : e < Float.exactlyRepresentablePowersOfTen.size) :
    ∃ (p : Decimal.Dyadic) (hp : Finite p), p.value = 10 ^ e ∧
      Float.exactlyRepresentablePowersOfTen[e].toModel.unpack =
        .finite .positive p.mantissa p.exponent hp.pos := by
  obtain ⟨hfinite, hsign, hlong, hvalue⟩ := powersOfTen_exact ⟨e, he⟩
  rw [Fin.getElem_fin] at hfinite hsign hlong hvalue
  generalize Float.exactlyRepresentablePowersOfTen[e] = x at *
  rcases unpack_eq_dyadic x hfinite with ⟨-, hzero⟩ | ⟨hpos, hunpack⟩
  · omega
  · rw [signOf, hsign] at hunpack
    refine ⟨Decimal.dyadic x, finite_of_unpack hunpack, ?_, hunpack⟩
    rw [Decimal.Dyadic.value_eq_div, div_eq_iff (by exact_mod_cast Nat.ne_of_gt (Nat.pow_pos two_pos))]
    exact_mod_cast hvalue

/-- The sign and the size of an exponent are put together again. -/
theorem exponent_eq (e : ℤ) :
    (if decide (e < 0) = true then Int.negOfNat e.natAbs else Int.ofNat e.natAbs) = e := by
  by_cases hneg : e < 0
  · rw [if_pos (decide_eq_true hneg), Int.negOfNat_eq]
    show -(e.natAbs : ℤ) = e
    omega
  · rw [if_neg (fun h => hneg (of_decide_eq_true h))]
    show (e.natAbs : ℤ) = e
    omega

/-- Short or long, a decimal is rounded once. -/
theorem exists_rounds {n : ℕ} {e : ℤ} (hn : 0 < n) (hhigh : e ≤ 2048)
    (hlow : -(2048 + (n.log2 : ℤ)) ≤ e) :
    ∃ u, Rounds u .positive (n * 10 ^ e) ∧
      Float.ofScientific n (e < 0) e.natAbs = Float.ofModel (.pack u) := by
  unfold Float.ofScientific
  split
  · -- the digits and the power of ten are doubles, and one operation is rounded
    rename_i hshort
    obtain ⟨c, hc, hlong, hvalue⟩ := exists_dyadic_of_lt hn hshort.1
    obtain ⟨p, hp, hpvalue, hpower⟩ :=
      exists_powerOfTen (show e.natAbs < Float.exactlyRepresentablePowersOfTen.size from
        Nat.lt_succ_of_le hshort.2)
    have hcount := unpack_toFloat hc hn hshort.1 hvalue
    rw [Decimal.Dyadic.value] at hvalue hpvalue
    simp only
    split
    · rename_i hneg
      have hexp : (10 : ℚ) ^ e = (10 ^ e.natAbs)⁻¹ := by
        have hneg : e < 0 := of_decide_eq_true hneg
        rw [← zpow_natCast, ← zpow_neg]
        congr 1
        omega
      refine ⟨div Format.binary64 _ _, ?_, rfl⟩
      rw [hcount, hpower, hexp, ← hvalue, ← hpvalue, ← div_eq_mul_inv]
      exact rounds_div .positive .positive hc.pos hp.pos
    · rename_i hneg
      have hexp : (10 : ℚ) ^ e = 10 ^ e.natAbs := by
        have hneg : ¬ e < 0 := fun h => hneg (decide_eq_true h)
        rw [← zpow_natCast]
        congr 1
        omega
      refine ⟨mul Format.binary64 _ _, ?_, rfl⟩
      rw [hcount, hpower, hexp, ← hvalue, ← hpvalue]
      refine rounds_mul (Or.inl ?_) .positive .positive hc.pos hp.pos
      exact Nat.le_trans hlong (Nat.le_mul_of_pos_right _ hp.pos)
  · refine ⟨ofScientific Format.binary64 n e, rounds_ofScientific hn hhigh hlow, ?_⟩
    rw [exponent_eq]
    rfl

/-- A decimal near a double is read as that double. -/
theorem float_ofScientific_of_near {x : Float} {hpos : 0 < d.mantissa}
    (hx : x.toModel.unpack = .finite .positive d.mantissa d.exponent hpos) {n : ℕ} (hn : 0 < n)
    {e : ℤ} (hnear : d.Near (n * 10 ^ e)) : Float.ofScientific n (e < 0) e.natAbs = x := by
  have hd : Finite d := finite_of_unpack hx
  obtain ⟨u, hrounds, hread⟩ := exists_rounds hn (Near.exponent_le hd hn hnear)
    (Near.le_exponent hd.toCanonical hnear)
  rw [hread, hrounds.eq_of_near hd.toCanonical hnear, ← hx]
  exact pack_unpack x

end FactorStudy.Double

namespace FactorStudy.Decimal

/-- The number that a numeral stands for. -/
def Numeral.value (q : Numeral) : ℚ :=
  ofDigits (q.whole ++ q.fraction) * 10 ^ (q.exponent - q.fraction.length)

/-! ## The range of decimals -/

theorem two_pow_le_ten_pow : (2 : ℚ) ^ 1075 ≤ 10 ^ 325 :=
  calc (2 : ℚ) ^ 1075 = (2 ^ 43) ^ 25 := by rw [← pow_mul]
    _ ≤ (10 ^ 13) ^ 25 := pow_le_pow_left₀ (by norm_num) (by norm_num) 25
    _ = 10 ^ 325 := by rw [← pow_mul]

/-- A decimal below the range in which decimals are computed is smaller than every double. -/
theorem mul_two_pow_lt_one {n : ℕ} {e : ℤ} (h : ((Nat.toDigits 10 n).length : ℤ) + e < -400) :
    (n : ℚ) * 10 ^ e * 2 ^ 1075 < 1 := by
  have hlt := lt_ten_pow_digitCount n
  unfold digitCount at hlt
  generalize (Nat.toDigits 10 n).length = k at *
  have hcount : (n : ℚ) ≤ 10 ^ k := by exact_mod_cast hlt.le
  -- 10^-325 times 2^1075 is below 1
  have hbound : (n : ℚ) * 10 ^ e < 10 ^ (-325 : ℤ) :=
    calc (n : ℚ) * 10 ^ e ≤ 10 ^ k * 10 ^ e := mul_le_mul_of_nonneg_right hcount (by positivity)
      _ = 10 ^ (k + e) := by rw [zpow_add₀ (by norm_num), zpow_natCast]
      _ < 10 ^ (-325 : ℤ) := zpow_lt_zpow_right₀ (by norm_num) (by omega)
  have hone : (10 : ℚ) ^ (-325 : ℤ) * 10 ^ 325 = 1 := by
    rw [← zpow_natCast, ← zpow_add₀ (by norm_num)]
    exact zpow_zero 10
  calc (n : ℚ) * 10 ^ e * 2 ^ 1075 < 10 ^ (-325 : ℤ) * 2 ^ 1075 :=
        mul_lt_mul_of_pos_right hbound (by positivity)
    _ ≤ 10 ^ (-325 : ℤ) * 10 ^ 325 := mul_le_mul_of_nonneg_left two_pow_le_ten_pow (by positivity)
    _ = 1 := hone

/-- A decimal near a double is within the range in which decimals are computed at all. -/
theorem size_of_near {d : Dyadic} (hd : Double.Finite d) {n : ℕ} (hn : 0 < n) {e : ℤ}
    (hnear : d.Near (n * 10 ^ e)) :
    -400 ≤ ((Nat.toDigits 10 n).length : ℤ) + e ∧ ((Nat.toDigits 10 n).length : ℤ) + e ≤ 400 := by
  have hlength : 0 < (Nat.toDigits 10 n).length := Nat.length_toDigits_pos
  constructor
  · -- a smaller decimal would be rounded to 0
    by_contra hsmall
    exact absurd (Double.Near.le_of_low hd.toCanonical hnear)
      (not_le.mpr (mul_two_pow_lt_one (by omega)))
  · -- a larger one would be infinite
    by_contra hbig
    have hhigh := Double.Near.lt_two_pow hd hnear
    have hle := ten_pow_le hn
    unfold digitCount at hle
    generalize (Nat.toDigits 10 n).length = k at *
    have hcount : (10 : ℚ) ^ (k - 1) ≤ n := by exact_mod_cast hle
    have := calc (n : ℚ) * 10 ^ e < 2 ^ 1024 := hhigh
      _ ≤ 2 ^ 1075 := pow_le_pow_right₀ (by norm_num) (by norm_num)
      _ ≤ 10 ^ 325 := two_pow_le_ten_pow
      _ = 10 ^ (325 : ℤ) := (zpow_natCast 10 325).symm
      _ ≤ 10 ^ ((k - 1 : ℕ) + e) := zpow_le_zpow_right₀ (by norm_num) (by omega)
      _ = 10 ^ (k - 1) * 10 ^ e := by rw [zpow_add₀ (by norm_num), zpow_natCast]
      _ ≤ n * 10 ^ e := mul_le_mul_of_nonneg_right hcount (by positivity)
    exact lt_irrefl _ this

/-- A decimal near a double is read as that double. -/
theorem nearest_of_near {d : Dyadic} {x : Float} {hpos : 0 < d.mantissa}
    (hx : x.toModel.unpack = .finite .positive d.mantissa d.exponent hpos) {n : ℕ} (hn : 0 < n)
    {e : ℤ} (hnear : d.Near (n * 10 ^ e)) : nearest n e = x := by
  obtain ⟨hlow, hhigh⟩ := size_of_near (Double.finite_of_unpack hx) hn hnear
  rw [nearest, if_neg (Nat.ne_of_gt hn)]
  simp only
  rw [if_neg (by omega), if_neg (by omega)]
  exact Double.float_ofScientific_of_near hx hn hnear

end FactorStudy.Decimal
