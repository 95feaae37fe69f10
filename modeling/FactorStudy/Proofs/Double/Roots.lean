import FactorStudy.Proofs.Double.Neighbours

/-!
# Quotients and square roots

A quotient of doubles is the exact one, rounded (`roundsTo_div`). Square roots are rounded from the
root of an integer and what is known of its rest, so what is rounded is a number near the root, and
all that is said of it is that it does not fall below a power of two that the root reaches, and stays
below twice a power of two above the root (`exists_roundsTo_sqrt`). That is enough to tell a root
from 0, to bound what is divided by it and to see that it does not overflow (`sqrt_cases`).

Nothing becomes finite again once it has overflowed, unless it is divided by: the operands of a
finite sum or product and the dividend of a finite quotient are finite.
-/

namespace FactorStudy.Double

open Number
open Float.Model (Format UnpackedFloat totalExponent)
open Float.Model.UnpackedFloat hiding infinity

/-! ## Operands of finite results -/

/-- Nothing becomes finite by being written to bits. -/
theorem isFinite_of_pack {x : Float} {u : UnpackedFloat} (hx : x = Float.ofModel (.pack u))
    (h : isFinite x = true) : u.isFinite = true := by
  have hread := unpack_ofModel u
  rw [← hx] at hread
  have hmodel : x.toModel.unpack.isFinite = true := h
  rw [hread] at hmodel
  -- what is undefined or infinite is still so when it is read back
  cases u with
  | notANumber =>
    rw [unpack_pack_nan] at hmodel
    exact hmodel
  | infinity s =>
    rw [unpack_pack_infinity] at hmodel
    exact hmodel
  | zero s => rfl
  | finite s m e hm => rfl

/-- A sum that is finite has finite terms. -/
theorem isFinite_of_add {x y : Float} (h : isFinite (x + y) = true) :
    isFinite x = true ∧ isFinite y = true := by
  have hadd := isFinite_of_pack (u := UnpackedFloat.add Format.binary64 x.toModel.unpack
    y.toModel.unpack) rfl h
  show x.toModel.unpack.isFinite = true ∧ y.toModel.unpack.isFinite = true
  generalize x.toModel.unpack = u at hadd ⊢
  generalize y.toModel.unpack = v at hadd ⊢
  -- an infinity or an undefined term leaves the sum infinite or undefined
  cases u with
  | notANumber => cases hadd
  | infinity s =>
    cases v with
    | infinity t => cases s <;> cases t <;> cases hadd
    | _ => cases hadd
  | zero s =>
    cases v with
    | notANumber => cases hadd
    | infinity t => cases hadd
    | _ => exact ⟨rfl, rfl⟩
  | finite s m e hm =>
    cases v with
    | notANumber => cases hadd
    | infinity t => cases hadd
    | _ => exact ⟨rfl, rfl⟩

/-- So has a difference. -/
theorem isFinite_of_sub {x y : Float} (h : isFinite (x - y) = true) :
    isFinite x = true ∧ isFinite y = true := by
  rw [sub_eq] at h
  obtain ⟨hx, hy⟩ := isFinite_of_add h
  exact ⟨hx, (isFinite_neg y).symm.trans hy⟩

/-- So has a product. -/
theorem isFinite_of_mul {x y : Float} (h : isFinite (x * y) = true) :
    isFinite x = true ∧ isFinite y = true := by
  have hmul := isFinite_of_pack (u := UnpackedFloat.mul Format.binary64 x.toModel.unpack
    y.toModel.unpack) rfl h
  show x.toModel.unpack.isFinite = true ∧ y.toModel.unpack.isFinite = true
  generalize x.toModel.unpack = u at hmul ⊢
  generalize y.toModel.unpack = v at hmul ⊢
  cases u with
  | notANumber => cases hmul
  | infinity s => cases v <;> cases hmul
  | zero s =>
    cases v with
    | notANumber => cases hmul
    | infinity t => cases hmul
    | _ => exact ⟨rfl, rfl⟩
  | finite s m e hm =>
    cases v with
    | notANumber => cases hmul
    | infinity t => cases hmul
    | _ => exact ⟨rfl, rfl⟩

/-- A quotient that is finite has a finite dividend. -/
theorem isFinite_of_div {x y : Float} (h : isFinite (x / y) = true) : isFinite x = true := by
  have hdiv := isFinite_of_pack (u := UnpackedFloat.div Format.binary64 x.toModel.unpack
    y.toModel.unpack) rfl h
  show x.toModel.unpack.isFinite = true
  generalize x.toModel.unpack = u at hdiv ⊢
  generalize y.toModel.unpack = v at hdiv
  cases u with
  | notANumber => cases hdiv
  | infinity s => cases v <;> cases hdiv
  | zero s => rfl
  | finite s m e hm => rfl

/-- What has overflowed does not become finite by being divided. -/
theorem isFinite_div_of_not {x : Float} (h : isFinite x = false) (y : Float) :
    isFinite (x / y) = false := by
  rw [← Bool.not_eq_true] at h ⊢
  exact mt isFinite_of_div h

/-- Nor does a difference with it. -/
theorem isFinite_sub_of_not (x : Float) {y : Float} (h : isFinite y = false) :
    isFinite (x - y) = false := by
  rw [← Bool.not_eq_true] at h ⊢
  exact mt (fun hsub => (isFinite_of_sub hsub).2) h

/-- A finite dividend over an infinite divisor leaves nothing. -/
theorem div_infinite {x y : Float} (hx : isFinite x = true) (hy : isFinite y = false)
    (hdef : isNaN y = false) : x / y = 0 ∨ x / y = -0 := by
  -- zeros and other finite doubles over an infinity are zeros of some sign
  have hdiv : ∀ s : Sign, y.toModel.unpack = .infinity s → x / y = 0 ∨ x / y = -0 := by
    intro s hs
    have hread : (x / y).toModel.unpack = _ := unpack_ofModel
      (UnpackedFloat.div Format.binary64 x.toModel.unpack y.toModel.unpack)
    rw [hs] at hread
    rcases finite_cases hx with ⟨t, hu, -⟩ | ⟨t, d, hd, hu, -⟩
    · rw [hu] at hread
      exact eq_zero_of_unpack (hread.trans (unpack_pack_zero _))
    · rw [hu] at hread
      exact eq_zero_of_unpack (hread.trans (unpack_pack_zero _))
  rcases eq_of_isFinite_eq_false hy with rfl | rfl | rfl
  · cases hdef
  · exact hdiv _ unpack_infinity
  · exact hdiv _ unpack_neg_infinity

/-! ## Quotients -/

theorem signed_div (s t : Sign) (p q : ℚ) : signed (s / t) (p / q) = signed s p / signed t q := by
  cases s <;> cases t
  · exact (neg_div_neg_eq p q).symm
  · exact (neg_div q p).symm
  · exact (div_neg p).symm
  · rfl

/-- A quotient is the number that it should be, rounded. -/
theorem roundsTo_div {x y : Float} (hx : isFinite x = true) (hy : isFinite y = true)
    (hne : value y ≠ 0) : RoundsTo (x / y) (value x / value y) := by
  have hdiv : x / y = Float.ofModel (.pack
      (UnpackedFloat.div Format.binary64 x.toModel.unpack y.toModel.unpack)) := rfl
  rcases finite_cases hy with ⟨t, -, hq⟩ | ⟨t, d, hd, hv, hq⟩
  · exact absurd hq hne
  · rcases finite_cases hx with ⟨s, hu, hp⟩ | ⟨s, c, hc, hu, hp⟩
    · rw [hdiv, hu, hv, hp, zero_div]
      exact roundsTo_zero _
    · rw [hdiv, hu, hv, hp, hq, ← signed_div]
      exact (rounds_div s t hc.pos hd.pos).roundsTo (div_nonneg hc.value_pos.le hd.value_pos.le)

/-! ## Square roots -/

/-- The mantissa is shifted far enough for a root of full length. -/
theorem exists_sqrtCore {m : ℕ} (hm : 0 < m) (e : ℤ) : ∃ (k : ℕ) (t : ℤ), e = 2 * t + k ∧
    (∃ acc, sqrtCore Format.binary64 m e = (Nat.sqrt (m * 2 ^ k), t, acc) ∧
      ∃ q : ℚ, Nat.sqrt (m * 2 ^ k) ≤ q ∧ q < Nat.sqrt (m * 2 ^ k) + 1 ∧
        Tracks (ExtendedMantissa.ofMantissaAndAccuracy (Nat.sqrt (m * 2 ^ k)) acc) q) ∧
    (2 ^ 52 ≤ Nat.sqrt (m * 2 ^ k) ∨ t ≤ -1074) := by
  obtain ⟨t, ht, hle, hlow⟩ : ∃ t : ℤ, min (e.ediv 2) (Format.binary64.targetExponent
      ((totalExponent m e + 1).ediv 2)) = t ∧ 2 * t ≤ e ∧
      (2 * t + 104 ≤ (m.log2 : ℤ) + e ∨ t ≤ -1074) := by
    refine ⟨_, rfl, ?_⟩
    show 2 * min (e / 2) (max (((m.log2 : ℤ) + 1 + e + 1) / 2 - 53) (-1074)) ≤ e ∧
      (2 * min (e / 2) (max (((m.log2 : ℤ) + 1 + e + 1) / 2 - 53) (-1074)) + 104 ≤ _ ∨
        min (e / 2) (max (((m.log2 : ℤ) + 1 + e + 1) / 2 - 53) (-1074)) ≤ -1074)
    omega
  obtain ⟨k, hk⟩ : ∃ k : ℕ, e = 2 * t + k := ⟨(e - 2 * t).toNat, by omega⟩
  have hshift : (e - 2 * t).toNat = k := by omega
  refine ⟨k, t, hk, ⟨if m * 2 ^ k - Nat.sqrt (m * 2 ^ k) * Nat.sqrt (m * 2 ^ k) = 0 then .exact
    else .inexact (if m * 2 ^ k - Nat.sqrt (m * 2 ^ k) * Nat.sqrt (m * 2 ^ k) ≤
      Nat.sqrt (m * 2 ^ k) then .lt else .gt), ?_, ?_⟩, ?_⟩
  · simp only [sqrtCore, ht, hshift, Nat.shiftLeft_eq]
  · -- somewhere in the interval that the accuracy stands for
    generalize Nat.sqrt (m * 2 ^ k) = root
    split
    · exact ⟨root, le_rfl, by linarith, tracks_exact root⟩
    · split
      · refine ⟨root + 1 / 4, by linarith, by linarith, ?_⟩
        show (root : ℚ) < root + 1 / 4 ∧ (root : ℚ) + 1 / 4 < root + 1 / 2
        exact ⟨by linarith, by linarith⟩
      · refine ⟨root + 3 / 4, by linarith, by linarith, ?_⟩
        show (root : ℚ) + 1 / 2 < root + 3 / 4 ∧ (root : ℚ) + 3 / 4 < root + 1
        exact ⟨by linarith, by linarith⟩
  · refine hlow.imp_left fun hlong => Nat.le_sqrt.mpr ?_
    have hlog : 104 ≤ m.log2 + k := by omega
    calc 2 ^ 52 * 2 ^ 52 ≤ 2 ^ (m.log2 + k) := by
          rw [← Nat.pow_add]
          exact Nat.pow_le_pow_right (by decide) hlog
      _ = 2 ^ m.log2 * 2 ^ k := Nat.pow_add _ _ _
      _ ≤ m * 2 ^ k := Nat.mul_le_mul_right _ (Nat.log2_self_le (Nat.ne_of_gt hm))

/-- A power of two is at most the root of what its square is at most, rounded down. -/
theorem two_zpow_le_sqrt {n : ℕ} (hn : 0 < n) {i : ℤ} (h : (4 : ℚ) ^ i ≤ n) :
    (2 : ℚ) ^ i ≤ Nat.sqrt n := by
  have hone : (1 : ℚ) ≤ Nat.sqrt n := by exact_mod_cast Nat.sqrt_pos.mpr hn
  rcases Int.lt_or_le i 0 with hneg | hnonneg
  · exact (zpow_le_one_of_nonpos₀ one_le_two hneg.le).trans hone
  · obtain ⟨j, rfl⟩ := Int.eq_ofNat_of_zero_le hnonneg
    rw [zpow_natCast] at h ⊢
    have hsquare : 2 ^ j * 2 ^ j ≤ n := by
      rw [← Nat.mul_pow]
      exact_mod_cast h
    exact_mod_cast Nat.le_sqrt.mpr hsquare

/-- A power of two exceeds the rounded root of what its square exceeds. -/
theorem sqrt_lt_two_zpow {n : ℕ} {i : ℤ} (h : (n : ℚ) < 4 ^ i) : (Nat.sqrt n : ℚ) < 2 ^ i := by
  have hsquare : ((Nat.sqrt n : ℚ)) ^ 2 < (2 ^ i) ^ 2 := by
    have hroot : ((Nat.sqrt n : ℚ)) ^ 2 ≤ n := by exact_mod_cast Nat.sqrt_le' n
    have hfour : ((2 : ℚ) ^ i) ^ 2 = 4 ^ i := by
      rw [← zpow_natCast, ← zpow_mul, mul_comm, zpow_mul]
      norm_num
    rw [hfour]
    exact hroot.trans_lt h
  exact lt_of_pow_lt_pow_left₀ 2 (by positivity) hsquare

/-- The root of a positive double rounds a number that no power of two below the root exceeds, and
that is less than twice a power of two above the root. -/
theorem exists_roundsTo_sqrt {x : Float} (hx : isFinite x = true) (hpos : 0 < value x) :
    ∃ q, RoundsTo (sqrt x) q ∧ (∀ k : ℤ, 4 ^ k ≤ value x → 2 ^ k ≤ q) ∧
      ∀ k : ℤ, value x < 4 ^ k → q < 2 ^ (k + 1) := by
  rcases finite_cases hx with ⟨s, -, hvalue⟩ | ⟨s, d, hd, hu, hvalue⟩
  · linarith
  have hdpos := hd.value_pos
  cases s with
  | negative =>
    rw [hvalue, signed] at hpos
    linarith
  | positive =>
  obtain ⟨k, t, hexp, ⟨acc, hcore, q, hq, hq', htracks⟩, hfine⟩ := exists_sqrtCore hd.pos d.exponent
  have hsqrt : sqrt x = Float.ofModel (.pack
      (UnpackedFloat.sqrt Format.binary64 x.toModel.unpack)) := rfl
  have hpow : (0 : ℚ) < 2 ^ t := by positivity
  have hrounds : Rounds (UnpackedFloat.sqrt Format.binary64
      (.finite .positive d.mantissa d.exponent hd.pos)) .positive (q * 2 ^ t) := by
    refine ⟨_, t, acc, ?_, ?_, hfine⟩
    · simp only [UnpackedFloat.sqrt, hcore]
    · rwa [mul_div_cancel_right₀ _ hpow.ne']
  have hq₀ : 0 ≤ q := le_trans (Nat.cast_nonneg _) hq
  have hradicand : 0 < d.mantissa * 2 ^ k := Nat.mul_pos hd.pos (Nat.pow_pos (by decide))
  -- the double is the integer under the root, in units of a power of four
  have hunits : value x = (d.mantissa * 2 ^ k : ℕ) * 4 ^ t := by
    rw [hvalue, signed, Decimal.Dyadic.value, hexp, zpow_add₀ two_ne_zero, zpow_mul, zpow_natCast]
    push_cast
    ring
  refine ⟨q * 2 ^ t, ?_, ?_, ?_⟩
  · rw [hsqrt, hu]
    exact hrounds.roundsTo (mul_nonneg hq₀ hpow.le)
  · intro j hj
    refine le_trans ?_ (mul_le_mul_of_nonneg_right hq hpow.le)
    have hscaled : (4 : ℚ) ^ (j - t) ≤ (d.mantissa * 2 ^ k : ℕ) := by
      rw [zpow_sub₀ (by norm_num), div_le_iff₀ (by positivity)]
      exact hj.trans_eq hunits
    have hroot := two_zpow_le_sqrt hradicand hscaled
    rwa [zpow_sub₀ two_ne_zero, div_le_iff₀ hpow] at hroot
  · intro j hj
    have hscaled : ((d.mantissa * 2 ^ k : ℕ) : ℚ) < 4 ^ (j - t) := by
      rw [zpow_sub₀ (by norm_num), lt_div_iff₀ (by positivity)]
      exact hunits.symm.trans_lt hj
    have hroot := sqrt_lt_two_zpow hscaled
    have hone : (1 : ℚ) ≤ Nat.sqrt (d.mantissa * 2 ^ k) := by
      exact_mod_cast Nat.sqrt_pos.mpr hradicand
    calc q * 2 ^ t < 2 * 2 ^ (j - t) * 2 ^ t := mul_lt_mul_of_pos_right (by linarith) hpow
      _ = 2 ^ (j + 1) := by
        rw [zpow_sub₀ two_ne_zero, mul_assoc, div_mul_cancel₀ _ hpow.ne', mul_comm,
          zpow_add_one₀ two_ne_zero]

/-- A root does not overflow. -/
theorem nonneg_sqrt_of_pos {x : Float} (hx : isFinite x = true) (hpos : 0 < value x) :
    Nonneg (sqrt x) ∧ isFinite (sqrt x) = true := by
  obtain ⟨q, hround, hlow, hhigh⟩ := exists_roundsTo_sqrt hx hpos
  obtain ⟨c, hc, hvalue⟩ := exists_value (n := 1) (by decide) (e := 513) (by decide) (by decide)
  rw [Nat.cast_one, one_mul] at hvalue
  -- every double is below 4^512, so its root is below 2^512
  have hlimit : value x < 4 ^ (512 : ℤ) := by
    have hlt := (isFinite_iff_value (isNaN_of_isFinite hx)).mp hx
    have hpower : (4 : ℚ) ^ (512 : ℤ) = limit := by
      rw [limit, show (4 : ℚ) = 2 ^ 2 by norm_num, zpow_ofNat, ← pow_mul]
    rw [hpower]
    exact (le_abs_self _).trans_lt hlt
  obtain ⟨k, hk, -⟩ := exists_mem_Ico_zpow hpos (show (1 : ℚ) < 4 by norm_num)
  have hq : 0 < q := lt_of_lt_of_le (by positivity) (hlow k hk)
  have hle : q ≤ value c := hvalue ▸ (hhigh 512 hlimit).le
  refine ⟨⟨hround.1, ?_⟩, hround.finite hc ((neg_nonpos.mpr (hq.le.trans hle)).trans hq.le) hle⟩
  rw [lt_iff_value hround.1 rfl, value_zero]
  exact not_lt.mpr (hround.nonneg hq.le)

/-- A root is undefined, or it is not negative and has not overflowed by being taken. -/
theorem sqrt_cases (x : Float) : isNaN (sqrt x) = true ∨
    Nonneg (sqrt x) ∧ (isFinite x = true → isFinite (sqrt x) = true) := by
  have hsqrt : sqrt x = Float.ofModel (.pack
      (UnpackedFloat.sqrt Format.binary64 x.toModel.unpack)) := rfl
  rcases read_cases x with rfl | ⟨s, hu, -⟩ | ⟨s, hu, -⟩ | ⟨s, d, hd, hu, hvalue⟩
  · -- undefined, infinite, zero, and the finite doubles by their sign
    exact Or.inl rfl
  · rw [hsqrt, hu]
    cases s with
    | negative => exact Or.inl rfl
    | positive =>
      refine Or.inr ⟨nonneg_infinity, fun hx => ?_⟩
      have hmodel : x.toModel.unpack.isFinite = true := hx
      rw [hu] at hmodel
      cases hmodel
  · rw [hsqrt, hu]
    refine Or.inr ⟨nonneg_zero s, fun _ => ?_⟩
    cases s with
    | negative => rfl
    | positive => rfl
  · cases s with
    | negative =>
      rw [hsqrt, hu]
      simp only [UnpackedFloat.sqrt]
      exact Or.inl rfl
    | positive =>
      have hx := isFinite_of_unpack_finite hu
      -- a root is between 1 and its square, so it stays in range
      obtain ⟨hnonneg, hfinite⟩ := nonneg_sqrt_of_pos hx (hvalue ▸ hd.value_pos)
      exact Or.inr ⟨hnonneg, fun _ => hfinite⟩

end FactorStudy.Double
