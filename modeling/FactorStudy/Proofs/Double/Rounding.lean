import Mathlib
import FactorStudy.Decimal.Dyadic

/-!
# What rounds to a double

Around the value of every double lies an interval of numbers that are rounded to it: half way to the
neighbours on both sides, the ends included when the mantissa is even (`Near`). Below a power of two
the next double is half as far away, which makes the interval shorter there.

The arithmetic keeps of an exact result a mantissa and two further bits, which tell whether the rest
is nothing, less than a half, a half or more (`Tracks`). Shifting the mantissa keeps that meaning.
So an operation that tracks its exact result returns the double whose interval the result lies in
(`roundWithAccuracy_of_near`); nothing else has to be known about the way it rounds.
-/

namespace FactorStudy.Decimal.Dyadic

/-! ## Numbers near a double -/

/-- The number that a dyadic is. -/
def value (d : Dyadic) : ℚ := d.mantissa * 2 ^ d.exponent

/-- A power with an integer exponent as a fraction of counts. -/
theorem zpow_eq_div (b : ℕ) (e : ℤ) :
    (b : ℚ) ^ e = (b ^ e.toNat : ℕ) / (b ^ (-e).toNat : ℕ) := by
  obtain ⟨k, hk | hk⟩ := Int.eq_nat_or_neg e
  · rw [hk, Int.toNat_natCast, show (-(k : ℤ)).toNat = 0 by omega, zpow_natCast]
    simp
  · rw [hk, neg_neg, Int.toNat_natCast, show (-(k : ℤ)).toNat = 0 by omega, zpow_neg, zpow_natCast]
    simp

theorem value_eq_div (d : Dyadic) : d.value = d.num / d.den := by
  have hpow : (2 : ℚ) ^ d.exponent = (2 ^ d.exponent.toNat : ℕ) / (2 ^ (-d.exponent).toNat : ℕ) :=
    zpow_eq_div 2 d.exponent
  show (d.mantissa : ℚ) * 2 ^ d.exponent =
    (d.mantissa * 2 ^ d.exponent.toNat : ℕ) / (2 ^ (-d.exponent).toNat : ℕ)
  rw [hpow]
  push_cast
  ring

/-- The magnitude of a double that is not 0, in the one form it is kept in. -/
structure Canonical (d : Dyadic) : Prop where
  pos : 0 < d.mantissa
  lt : d.mantissa < 2 ^ 53
  low : -1074 ≤ d.exponent
  normal : 2 ^ 52 ≤ d.mantissa ∨ d.exponent = -1074

/-- How far below a double, in units of its last place, the numbers that are rounded to it begin. -/
def gapBelow (d : Dyadic) : ℚ := if d.mantissa = 2 ^ 52 ∧ -1074 < d.exponent then 1 / 4 else 1 / 2

/-- The numbers that are rounded to the double of this magnitude, in units of its last place. -/
def NearScaled (d : Dyadic) (x : ℚ) : Prop :=
  (d.mantissa - d.gapBelow < x ∧ x < d.mantissa + 1 / 2) ∨
    (d.mantissa % 2 = 0 ∧ d.mantissa - d.gapBelow ≤ x ∧ x ≤ d.mantissa + 1 / 2)

/-- The numbers that are rounded to the double of this magnitude. -/
def Near (d : Dyadic) (q : ℚ) : Prop := d.NearScaled (q / 2 ^ d.exponent)

variable {d : Dyadic} {x : ℚ}

theorem gapBelow_le (d : Dyadic) : d.gapBelow ≤ 1 / 2 := by
  unfold gapBelow
  split <;> norm_num

theorem gapBelow_pos (d : Dyadic) : 0 < d.gapBelow := by
  unfold gapBelow
  split <;> norm_num

theorem NearScaled.lower (h : d.NearScaled x) : d.mantissa - d.gapBelow ≤ x := by
  rcases h with ⟨h, -⟩ | ⟨-, h, -⟩
  · exact h.le
  · exact h

theorem NearScaled.upper (h : d.NearScaled x) : x ≤ d.mantissa + 1 / 2 := by
  rcases h with ⟨-, h⟩ | ⟨-, -, h⟩
  · exact h.le
  · exact h

theorem near_iff {q : ℚ} : d.Near q ↔
    ((d.mantissa - d.gapBelow) * 2 ^ d.exponent < q ∧ q < (d.mantissa + 1 / 2) * 2 ^ d.exponent) ∨
      (d.mantissa % 2 = 0 ∧ (d.mantissa - d.gapBelow) * 2 ^ d.exponent ≤ q ∧
        q ≤ (d.mantissa + 1 / 2) * 2 ^ d.exponent) := by
  have hpow : (0 : ℚ) < 2 ^ d.exponent := by positivity
  rw [Near, NearScaled, lt_div_iff₀ hpow, div_lt_iff₀ hpow, le_div_iff₀ hpow, div_le_iff₀ hpow]

/-- A double is near itself. -/
theorem near_value (d : Dyadic) : d.Near d.value := by
  have hscaled : d.value / 2 ^ d.exponent = d.mantissa := by
    rw [value, mul_div_assoc, div_self (zpow_ne_zero _ two_ne_zero), mul_one]
  rw [Near, hscaled]
  refine Or.inl ⟨?_, ?_⟩
  · linarith [gapBelow_pos d]
  · linarith

end FactorStudy.Decimal.Dyadic

namespace FactorStudy.Double

open Float.Model (Format totalExponent)
open Float.Model.UnpackedFloat

/-! ## Mantissas with two more bits -/

/-- What an extended mantissa tells of the number it was cut from. -/
def Tracks (em : ExtendedMantissa) (x : ℚ) : Prop :=
  match em.roundBit, em.stickyBit with
  | false, false => x = em.mantissa
  | false, true => em.mantissa < x ∧ x < em.mantissa + 1 / 2
  | true, false => x = em.mantissa + 1 / 2
  | true, true => em.mantissa + 1 / 2 < x ∧ x < em.mantissa + 1

theorem Tracks.le {em : ExtendedMantissa} {x : ℚ} (h : Tracks em x) : em.mantissa ≤ x := by
  obtain ⟨m, r, s⟩ := em
  cases r <;> cases s
  · exact le_of_eq (Eq.symm h)
  · exact h.1.le
  · have hx : x = m + 1 / 2 := h
    simp only
    linarith
  · have hx : (m : ℚ) + 1 / 2 < x := h.1
    simp only
    linarith

theorem Tracks.lt {em : ExtendedMantissa} {x : ℚ} (h : Tracks em x) : x < em.mantissa + 1 := by
  obtain ⟨m, r, s⟩ := em
  cases r <;> cases s
  · have hx : x = m := h
    simp only
    linarith
  · have hx : x < m + 1 / 2 := h.2
    simp only
    linarith
  · have hx : x = m + 1 / 2 := h
    simp only
    linarith
  · exact h.2

/-- Shifting by a bit halves the number. The bit that goes out becomes the round bit, and the two
bits behind it only have to tell whether anything is left. -/
theorem Tracks.shiftRightOne {em : ExtendedMantissa} {x : ℚ} (h : Tracks em x) :
    Tracks em.shiftRightOne (x / 2) := by
  obtain ⟨m, r, s⟩ := em
  have hhalf : (m : ℚ) = 2 * (m / 2 : ℕ) + (m % 2 : ℕ) := by
    exact_mod_cast (Nat.div_add_mod m 2).symm
  have hbits : (⟨m, r, s⟩ : ExtendedMantissa).shiftRightOne = ⟨m / 2, m % 2 != 0, r || s⟩ := rfl
  rw [hbits]
  rcases Nat.mod_two_eq_zero_or_one m with hm | hm
  · -- a 0 goes out, so less than a half is left
    rw [hm] at hhalf ⊢
    cases r <;> cases s <;> simp only [Tracks, bne_self_eq_false, Bool.or_false, Bool.or_true,
      Nat.cast_zero, add_zero] at h hhalf ⊢
    · linarith
    · exact ⟨by linarith, by linarith⟩
    · exact ⟨by linarith, by linarith⟩
    · exact ⟨by linarith, by linarith⟩
  · -- a 1 goes out, so at least a half is left
    rw [hm] at hhalf ⊢
    cases r <;> cases s <;> simp only [Tracks, Bool.or_false, Bool.or_true, Nat.cast_one]
      at h hhalf ⊢
    · show x / 2 = (m / 2 : ℕ) + 1 / 2
      linarith
    · exact ⟨by linarith, by linarith⟩
    · exact ⟨by linarith, by linarith⟩
    · exact ⟨by linarith, by linarith⟩

theorem Tracks.shiftRight {em : ExtendedMantissa} {x : ℚ} (h : Tracks em x) (n : ℕ) :
    Tracks (em >>> n) (x / 2 ^ n) := by
  show Tracks (n.repeat ExtendedMantissa.shiftRightOne em) _
  induction n with
  | zero => simpa [Nat.repeat] using h
  | succ n ih =>
    rw [Nat.repeat, pow_succ, ← div_div]
    exact ih.shiftRightOne

/-- Rounding finds the integer that is nearest, and of two the even one. -/
theorem Tracks.roundedMantissa_eq {em : ExtendedMantissa} {x : ℚ} (h : Tracks em x) {m : ℕ}
    (hm : (m - 1 / 2 < x ∧ x < m + 1 / 2) ∨ (m % 2 = 0 ∧ m - 1 / 2 ≤ x ∧ x ≤ m + 1 / 2)) :
    em.roundedMantissa = m := by
  have hlower : (m : ℚ) - 1 / 2 ≤ x := by
    rcases hm with ⟨hm, -⟩ | ⟨-, hm, -⟩
    · exact hm.le
    · exact hm
  have hupper : x ≤ (m : ℚ) + 1 / 2 := by
    rcases hm with ⟨-, hm⟩ | ⟨-, -, hm⟩
    · exact hm.le
    · exact hm
  obtain ⟨n, r, s⟩ := em
  cases r <;> cases s
  · -- nothing is left
    have hx : x = n := h
    have h₁ : (n : ℚ) < (m + 1 : ℕ) := by push_cast; linarith
    have h₂ : (m : ℚ) < (n + 1 : ℕ) := by push_cast; linarith
    show n = m
    have h₁ := Nat.cast_lt.mp h₁
    have h₂ := Nat.cast_lt.mp h₂
    omega
  · -- less than a half: rounded down
    have hx : n < x ∧ x < n + 1 / 2 := h
    have h₁ : (n : ℚ) < (m + 1 : ℕ) := by push_cast; linarith
    have h₂ : (m : ℚ) < (n + 1 : ℕ) := by push_cast; linarith
    show n = m
    have h₁ := Nat.cast_lt.mp h₁
    have h₂ := Nat.cast_lt.mp h₂
    omega
  · -- a half: the strict interval is empty, so the mantissa asked for is the even neighbour
    have hx : x = n + 1 / 2 := h
    show n + n % 2 = m
    rcases hm with ⟨h₁, h₂⟩ | ⟨heven, -, -⟩
    · have h₁ : (m : ℚ) < (n + 1 : ℕ) := by push_cast; linarith
      have h₂ : (n : ℚ) < m := by linarith
      have h₁ := Nat.cast_lt.mp h₁
      have h₂ := Nat.cast_lt.mp h₂
      omega
    · have h₁ : (m : ℚ) ≤ (n + 1 : ℕ) := by push_cast; linarith
      have h₂ : (n : ℚ) ≤ m := by linarith
      have h₁ := Nat.cast_le.mp h₁
      have h₂ := Nat.cast_le.mp h₂
      omega
  · -- more than a half: rounded up
    have hx : n + 1 / 2 < x ∧ x < n + 1 := h
    have h₁ : (n : ℚ) < m := by linarith
    have h₂ : (m : ℚ) < (n + 2 : ℕ) := by push_cast; linarith
    show n + 1 = m
    have h₁ := Nat.cast_lt.mp h₁
    have h₂ := Nat.cast_lt.mp h₂
    omega

/-! ## The exponent -/

/-- The exponent that the mantissa is shifted to. -/
theorem targetExponent_eq (m : ℕ) (e : ℤ) :
    Format.binary64.targetExponent (totalExponent m e) = max ((m.log2 : ℤ) + e - 52) (-1074) := by
  show max ((m.log2 : ℤ) + 1 + e - 53) (-1074) = _
  congr 1
  omega

theorem shiftToTargetExponent_eq {m : ℕ} {e : ℤ} (k : ℕ) (acc : Accuracy)
    (hk : max ((m.log2 : ℤ) + e - 52) (-1074) = e + k) :
    shiftToTargetExponent Format.binary64 m e acc =
      (ExtendedMantissa.ofMantissaAndAccuracy m acc >>> k, e + k) := by
  have hshift : (e + (k : ℤ) - e).toNat = k := by omega
  simp only [shiftToTargetExponent, shiftToExponent, targetExponent_eq, hk, hshift]

/-- A mantissa that is canonical already is not shifted. -/
theorem shiftToTargetExponent_self {d : Decimal.Dyadic} (hd : d.Canonical) :
    shiftToTargetExponent Format.binary64 d.mantissa d.exponent .exact =
      (⟨d.mantissa, false, false⟩, d.exponent) := by
  have hlog : d.mantissa.log2 < 53 := (Nat.log2_lt (Nat.ne_of_gt hd.pos)).mpr hd.lt
  have hk : max ((d.mantissa.log2 : ℤ) + d.exponent - 52) (-1074) = d.exponent + (0 : ℕ) := by
    rcases hd.normal with h | h
    · have : 52 ≤ d.mantissa.log2 := (Nat.le_log2 (Nat.ne_of_gt hd.pos)).mpr h
      have := hd.low
      omega
    · omega
  rw [shiftToTargetExponent_eq 0 .exact hk]
  simp [ExtendedMantissa.ofMantissaAndAccuracy]
  rfl

/-- A mantissa that rounding made too long is shifted by one place. -/
theorem shiftToTargetExponent_carry {e : ℤ} (he : -1074 ≤ e) :
    shiftToTargetExponent Format.binary64 (2 ^ 53) e .exact = (⟨2 ^ 52, false, false⟩, e + 1) := by
  have hk : max (((2 ^ 53 : ℕ).log2 : ℤ) + e - 52) (-1074) = e + (1 : ℕ) := by
    rw [Nat.log2_two_pow]
    omega
  rw [shiftToTargetExponent_eq 1 .exact hk]
  rfl

/-- A mantissa long enough for the format, or with an exponent as low as it goes, is shifted to
where the number it tracks has the length of a mantissa. -/
theorem exists_shift {m : ℕ} {e : ℤ} {acc : Accuracy} {x : ℚ}
    (h : Tracks (ExtendedMantissa.ofMantissaAndAccuracy m acc) x) (hfine : 2 ^ 52 ≤ m ∨ e ≤ -1074) :
    ∃ k : ℕ, max ((m.log2 : ℤ) + e - 52) (-1074) = e + k ∧ x / 2 ^ k < 2 ^ 53 ∧
      (2 ^ 52 ≤ x / 2 ^ k ∨ e + k = -1074) := by
  -- rounding bits are below the mantissa's last one, so it is the floor of `x`
  have hmantissa : (ExtendedMantissa.ofMantissaAndAccuracy m acc).mantissa = m := by
    rcases acc with _ | (_ | _ | _) <;> rfl
  have hle : (m : ℚ) ≤ x := hmantissa ▸ h.le
  have hlt : x < (m : ℚ) + 1 := hmantissa ▸ h.lt
  have hlong : 52 ≤ m.log2 ∨ e ≤ -1074 :=
    hfine.imp_left fun hm => (Nat.le_log2 (by omega)).mpr hm
  obtain ⟨k, hk⟩ : ∃ k : ℕ, max ((m.log2 : ℤ) + e - 52) (-1074) = e + k :=
    ⟨(max ((m.log2 : ℤ) + e - 52) (-1074) - e).toNat, by omega⟩
  refine ⟨k, hk, ?_, ?_⟩
  · -- not too long: the exponent leaves at most 53 bits
    have hm : m + 1 ≤ 2 ^ (53 + k) := by
      have hlog : m < 2 ^ (m.log2 + 1) := Nat.lt_log2_self
      have hexp : m.log2 + 1 ≤ 53 + k := by omega
      exact Nat.lt_of_lt_of_le hlog (Nat.pow_le_pow_right (by decide) hexp)
    have hm : (m : ℚ) + 1 ≤ 2 ^ 53 * 2 ^ k := by
      rw [← pow_add]
      exact_mod_cast hm
    rw [div_lt_iff₀ (by positivity)]
    exact lt_of_lt_of_le hlt hm
  · by_cases hlow : e + (k : ℤ) = -1074
    · exact Or.inr hlow
    · -- and not too short: unless the exponent stops it, exactly 53 bits are left
      left
      have hlog : m.log2 = 52 + k := by omega
      have hm : 2 ^ (52 + k) ≤ m := by
        rw [← hlog]
        refine Nat.log2_self_le ?_
        rintro rfl
        rw [Nat.log2_zero] at hlog
        omega
      have hm : (2 : ℚ) ^ 52 * 2 ^ k ≤ m := by
        rw [← pow_add]
        exact_mod_cast hm
      rw [le_div_iff₀ (by positivity)]
      exact le_trans hm hle

/-- A lower exponent makes the mantissa at least twice as long. -/
theorem two_mul_div_zpow_le {q : ℚ} (hq : 0 ≤ q) {t t' : ℤ} (h : t < t') :
    2 * (q / 2 ^ t') ≤ q / 2 ^ t := by
  have hpow : (2 : ℚ) ^ (t + 1) ≤ 2 ^ t' := zpow_le_zpow_right₀ one_le_two h
  rw [zpow_add_one₀ two_ne_zero] at hpow
  rw [← mul_div_assoc, div_le_div_iff₀ (by positivity) (by positivity)]
  linarith [mul_le_mul_of_nonneg_left hpow hq]

theorem Near.pos {d : Decimal.Dyadic} (hd : d.Canonical) {q : ℚ} (hq : d.Near q) : 0 < q := by
  have hone : (1 : ℚ) ≤ d.mantissa := by exact_mod_cast hd.pos
  have hscaled : 0 < q / 2 ^ d.exponent := by
    linarith [hq.lower, Decimal.Dyadic.gapBelow_le d]
  have hpow : (0 : ℚ) < 2 ^ d.exponent := by positivity
  have hmul : 0 < q / 2 ^ d.exponent * 2 ^ d.exponent := mul_pos hscaled hpow
  rwa [div_mul_cancel₀ _ hpow.ne'] at hmul

/-- A number near a double is shifted to the double's exponent, or, just below a power of two, to
the exponent beneath. -/
theorem exponent_of_near {d : Decimal.Dyadic} (hd : d.Canonical) {q : ℚ} (hq : d.Near q) {t : ℤ}
    (ht : -1074 ≤ t) (hlt : q / 2 ^ t < 2 ^ 53) (hle : 2 ^ 52 ≤ q / 2 ^ t ∨ t = -1074) :
    t = d.exponent ∨
      (t + 1 = d.exponent ∧ d.mantissa = 2 ^ 52 ∧ 2 ^ 53 - 1 / 2 ≤ q / 2 ^ t) := by
  have hlower := hq.lower
  have hupper := hq.upper
  have hpos : 0 ≤ q := (Near.pos hd hq).le
  rcases lt_trichotomy t d.exponent with h | h | h
  · -- a lower exponent leaves room for one bit more, which only a power of two does not fill
    right
    have hnormal : 2 ^ 52 ≤ d.mantissa := hd.normal.resolve_right (by omega)
    have htwice := two_mul_div_zpow_le hpos h
    have hmantissa : d.mantissa = 2 ^ 52 := by
      refine le_antisymm (Nat.lt_succ_iff.mp (Nat.lt_of_not_le fun hm => ?_)) hnormal
      have hm : (2 : ℚ) ^ 52 + 1 ≤ d.mantissa := by exact_mod_cast hm
      linarith [Decimal.Dyadic.gapBelow_le d]
    have hquarter : d.gapBelow = 1 / 4 := if_pos ⟨hmantissa, by omega⟩
    rw [hmantissa, hquarter] at hlower
    push_cast at hlower
    refine ⟨?_, hmantissa, by linarith⟩
    by_contra hne
    have hnext := two_mul_div_zpow_le hpos (show t + 1 < d.exponent by omega)
    have hfirst := two_mul_div_zpow_le hpos (show t < t + 1 by omega)
    linarith
  · exact Or.inl h
  · -- under a higher exponent the mantissa would be too short
    exfalso
    have hlow := hd.low
    have hnormal : 2 ^ 52 ≤ q / 2 ^ t := hle.resolve_right (by omega)
    have hmax : (d.mantissa : ℚ) + 1 ≤ 2 ^ 53 := by exact_mod_cast hd.lt
    linarith [two_mul_div_zpow_le hpos h]

/-- **Correct rounding.** An operation that knows its exact result `q` to enough places returns the
double that `q` is near to. -/
theorem roundWithAccuracy_of_near {d : Decimal.Dyadic} (hd : d.Canonical) {q : ℚ} (hq : d.Near q)
    {m : ℕ} {e : ℤ} {acc : Accuracy}
    (h : Tracks (ExtendedMantissa.ofMantissaAndAccuracy m acc) (q / 2 ^ e))
    (hfine : 2 ^ 52 ≤ m ∨ e ≤ -1074) (s : Sign) :
    roundWithAccuracy Format.binary64 s m e acc = .finite s d.mantissa d.exponent hd.pos := by
  obtain ⟨k, hk, hlt, hle⟩ := exists_shift h hfine
  have hx : q / 2 ^ e / 2 ^ k = q / 2 ^ (e + k) := by
    rw [div_div, zpow_add₀ two_ne_zero, zpow_natCast]
  have htracks := h.shiftRight k
  rw [hx] at hlt hle htracks
  -- the first shift and the rounding, then the second shift
  have hfirst := shiftToTargetExponent_eq k acc hk
  have hsecond : ∀ {r : ℕ}, (ExtendedMantissa.ofMantissaAndAccuracy m acc >>> k).roundedMantissa = r →
      shiftToTargetExponent Format.binary64 r (e + k) .exact =
        (⟨d.mantissa, false, false⟩, d.exponent) →
      roundWithAccuracy Format.binary64 s m e acc = .finite s d.mantissa d.exponent hd.pos := by
    intro r hr hshift
    simp only [roundWithAccuracy, hfirst, hr, hshift]
    rw [dif_neg (Nat.ne_of_gt hd.pos)]
  rcases exponent_of_near hd hq (by omega) hlt hle with hexp | ⟨hexp, hmantissa, hbelow⟩
  · have hgap := Decimal.Dyadic.gapBelow_le d
    rw [hexp] at htracks hsecond
    refine hsecond (htracks.roundedMantissa_eq ?_) (shiftToTargetExponent_self hd)
    rcases hq with ⟨h₁, h₂⟩ | ⟨heven, h₁, h₂⟩
    · exact Or.inl ⟨by linarith, h₂⟩
    · exact Or.inr ⟨heven, by linarith, h₂⟩
  · -- just below a power of two the mantissa is rounded up to `2 ^ 53` and shifted once more
    have hcarry : ((2 ^ 53 : ℕ) : ℚ) = 2 ^ 53 := by push_cast; rfl
    refine hsecond (r := 2 ^ 53) (htracks.roundedMantissa_eq (Or.inr ⟨by decide, ?_, ?_⟩)) ?_
    · rw [hcarry]
      exact hbelow
    · rw [hcarry]
      linarith
    · rw [shiftToTargetExponent_carry (by omega), hexp, hmantissa]

end FactorStudy.Double
