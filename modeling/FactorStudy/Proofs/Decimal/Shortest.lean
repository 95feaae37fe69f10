import FactorStudy.Proofs.Double.Rounding
import FactorStudy.Decimal.Shortest

/-!
# Seventeen digits suffice

The interval of numbers that are rounded to a double is wider than the spacing of the grid of
seventeen digits, so that grid has a point in it (`exists_gridPoint`). Hence the search for the
coarsest grid with a point in the interval succeeds, and what it finds is near the double
(`near_shortest`).
-/

namespace FactorStudy.Decimal

/-! ## The interval in integers -/

theorem den_pos (d : Dyadic) : 0 < d.den := Nat.pow_pos (by decide)

namespace Neighbourhood

theorem of_den_pos (d : Dyadic) : 0 < (of d).den := Nat.mul_pos (by decide) (den_pos d)

theorem two_zpow_eq_div (d : Dyadic) :
    (2 : ℚ) ^ d.exponent = (Nat.pow 2 d.exponent.toNat : ℕ) / (d.den : ℕ) :=
  Dyadic.zpow_eq_div 2 d.exponent

theorem of_lo {d : Dyadic} (hd : d.Canonical) :
    ((of d).lo : ℚ) / (of d).den = (d.mantissa - d.gapBelow) * 2 ^ d.exponent := by
  have hpos : 1 ≤ d.mantissa := hd.pos
  have hden : (d.den : ℚ) ≠ 0 := by exact_mod_cast Nat.ne_of_gt (den_pos d)
  rw [two_zpow_eq_div]
  by_cases h : d.mantissa = Nat.pow 2 52 ∧ -1074 < d.exponent
  · -- below a power of two the next double is half as far away
    have hgap : d.gapBelow = 1 / 4 := if_pos h
    simp only [of, if_pos h, hgap]
    rw [Nat.cast_mul, Nat.cast_mul, Nat.cast_sub (by omega)]
    push_cast
    field_simp
  · have hgap : d.gapBelow = 1 / 2 := if_neg h
    simp only [of, if_neg h, hgap]
    rw [Nat.cast_mul, Nat.cast_mul, Nat.cast_sub (by omega)]
    push_cast
    field_simp
    ring

theorem of_mid (d : Dyadic) : ((of d).mid : ℚ) / (of d).den = d.value := by
  have hden : (d.den : ℚ) ≠ 0 := by exact_mod_cast Nat.ne_of_gt (den_pos d)
  rw [Dyadic.value, two_zpow_eq_div]
  simp only [of]
  push_cast
  field_simp

theorem of_hi (d : Dyadic) :
    ((of d).hi : ℚ) / (of d).den = (d.mantissa + 1 / 2) * 2 ^ d.exponent := by
  have hden : (d.den : ℚ) ≠ 0 := by exact_mod_cast Nat.ne_of_gt (den_pos d)
  rw [two_zpow_eq_div]
  simp only [of]
  push_cast
  field_simp
  ring

theorem contains_iff {d : Dyadic} (hd : d.Canonical) (num : ℕ) {k : ℕ} (hk : 0 < k) :
    (of d).contains num k = true ↔ d.Near (num / k) := by
  have hlo := of_lo hd
  have hhi := of_hi d
  have hden : (0 : ℚ) < (of d).den := by exact_mod_cast of_den_pos d
  have hk : (0 : ℚ) < k := by exact_mod_cast hk
  have hle : (of d).lo * k ≤ num * (of d).den ↔
      (d.mantissa - d.gapBelow) * 2 ^ d.exponent ≤ (num : ℚ) / k := by
    rw [← hlo, div_le_div_iff₀ hden hk]
    exact_mod_cast Iff.rfl
  have hlt : (of d).lo * k < num * (of d).den ↔
      (d.mantissa - d.gapBelow) * 2 ^ d.exponent < (num : ℚ) / k := by
    rw [← hlo, div_lt_div_iff₀ hden hk]
    exact_mod_cast Iff.rfl
  have hge : num * (of d).den ≤ (of d).hi * k ↔
      (num : ℚ) / k ≤ (d.mantissa + 1 / 2) * 2 ^ d.exponent := by
    rw [← hhi, div_le_div_iff₀ hk hden]
    exact_mod_cast Iff.rfl
  have hgt : num * (of d).den < (of d).hi * k ↔
      (num : ℚ) / k < (d.mantissa + 1 / 2) * 2 ^ d.exponent := by
    rw [← hhi, div_lt_div_iff₀ hk hden]
    exact_mod_cast Iff.rfl
  have hclosed : (of d).closed = decide (d.mantissa % 2 = 0) := rfl
  rw [Dyadic.near_iff, ← hle, ← hlt, ← hge, ← hgt, contains, hclosed]
  by_cases heven : d.mantissa % 2 = 0
  · -- the ends count, and then the open interval says nothing new
    simp only [heven, decide_true, if_true, Bool.and_eq_true, decide_eq_true_eq, true_and]
    exact ⟨Or.inr, fun h => h.elim (fun h => ⟨h.1.le, h.2.le⟩) id⟩
  · simp only [heven, decide_false, Bool.false_eq_true, if_false, Bool.and_eq_true,
      decide_eq_true_eq, false_and, or_false]

/-! ## Grid points -/

theorem choose_eq_or (tie : Tie) (below twice unit : ℕ) :
    tie.choose below twice unit = below ∨ tie.choose below twice unit = below + 1 := by
  unfold Tie.choose
  split
  · exact Or.inl rfl
  · split
    · exact Or.inr rfl
    · cases tie with
      | up => exact Or.inr rfl
      | toEven =>
        simp only
        split
        · exact Or.inl rfl
        · exact Or.inr rfl

theorem ten_pow_pos (k : ℕ) : 0 < Nat.pow 10 k := Nat.pow_pos (by decide)

/-- A count of grid steps as a fraction. -/
theorem mul_ten_zpow (n : ℕ) (e : ℤ) :
    (n : ℚ) * 10 ^ e = (n * Nat.pow 10 e.toNat : ℕ) / (Nat.pow 10 (-e).toNat : ℕ) := by
  have hpow : (10 : ℚ) ^ e = (Nat.pow 10 e.toNat : ℕ) / (Nat.pow 10 (-e).toNat : ℕ) :=
    Dyadic.zpow_eq_div 10 e
  rw [hpow]
  push_cast
  ring

variable {d : Dyadic} {tie : Tie} {e : ℤ}

theorem contains_grid_iff (hd : d.Canonical) (n : ℕ) :
    (of d).contains (n * Nat.pow 10 e.toNat) (Nat.pow 10 (-e).toNat) = true ↔
      d.Near (n * 10 ^ e) := by
  rw [contains_iff hd _ (ten_pow_pos _), mul_ten_zpow]

/-- The number of whole grid steps below the value. -/
def steps (b : Neighbourhood) (e : ℤ) : ℕ :=
  b.mid * Nat.pow 10 (-e).toNat / (b.den * Nat.pow 10 e.toNat)

/-- What the search returns lies in the interval. -/
theorem near_of_gridPoint? (hd : d.Canonical) {s : Scaled}
    (h : (of d).gridPoint? tie e = some s) : d.Near (s.digits * 10 ^ s.exponent) := by
  unfold gridPoint? at h
  simp only at h
  split at h
  · -- both neighbours lie in the interval, and one of them is chosen
    rename_i hbelow habove
    cases h
    rw [contains_grid_iff hd] at hbelow habove
    simp only
    rcases choose_eq_or tie ((of d).mid * Nat.pow 10 (-e).toNat / ((of d).den * Nat.pow 10 e.toNat))
      _ _ with hc | hc
    · rw [hc]
      exact hbelow
    · rw [hc]
      exact habove
  · rename_i hbelow _
    cases h
    exact (contains_grid_iff hd _).mp hbelow
  · rename_i _ habove
    cases h
    exact (contains_grid_iff hd _).mp habove
  · cases h

/-- The search fails only if neither grid point next to the value lies in the interval. -/
theorem not_near_of_gridPoint?_eq_none (hd : d.Canonical) (h : (of d).gridPoint? tie e = none) :
    ¬ d.Near ((of d).steps e * 10 ^ e) ∧ ¬ d.Near (((of d).steps e + 1 : ℕ) * 10 ^ e) := by
  rw [← contains_grid_iff hd, ← contains_grid_iff hd]
  unfold gridPoint? at h
  simp only at h
  split at h
  · cases h
  · cases h
  · cases h
  · rename_i hbelow habove
    rw [steps, hbelow, habove]
    exact ⟨Bool.false_ne_true, Bool.false_ne_true⟩

/-- The value lies between the grid points next to it. -/
theorem steps_le (d : Dyadic) (e : ℤ) :
    (of d).steps e * 10 ^ e ≤ d.value ∧ d.value < ((of d).steps e + 1 : ℕ) * 10 ^ e := by
  have hden : (0 : ℚ) < (of d).den := by exact_mod_cast of_den_pos d
  have hdown : (0 : ℚ) < (Nat.pow 10 (-e).toNat : ℕ) := by exact_mod_cast ten_pow_pos _
  have hunit : 0 < (of d).den * Nat.pow 10 e.toNat := Nat.mul_pos (of_den_pos d) (ten_pow_pos _)
  rw [← of_mid, mul_ten_zpow, mul_ten_zpow, div_le_div_iff₀ hdown hden, div_lt_div_iff₀ hden hdown]
  -- the number of steps is a quotient rounded down, so both sides are multiplied out
  constructor
  · have h : (of d).steps e * ((of d).den * Nat.pow 10 e.toNat) ≤
        (of d).mid * Nat.pow 10 (-e).toNat := Nat.div_mul_le_self _ _
    rw [Nat.mul_comm (of d).den, ← Nat.mul_assoc] at h
    exact_mod_cast h
  · have h : (of d).mid * Nat.pow 10 (-e).toNat <
        ((of d).steps e + 1) * ((of d).den * Nat.pow 10 e.toNat) :=
      Nat.mul_comm (_ * _) _ ▸ Nat.lt_mul_div_succ _ hunit
    rw [Nat.mul_comm (of d).den, ← Nat.mul_assoc] at h
    exact_mod_cast h

/-- A grid finer than the interval has a point in it. -/
theorem exists_gridPoint (hd : d.Canonical)
    (hwidth : (10 : ℚ) ^ e < (1 / 2 + d.gapBelow) * 2 ^ d.exponent) :
    ∃ s, (of d).gridPoint? tie e = some s := by
  cases h : (of d).gridPoint? tie e with
  | some s => exact ⟨s, rfl⟩
  | none =>
    exfalso
    obtain ⟨hbelow, habove⟩ := not_near_of_gridPoint?_eq_none hd h
    obtain ⟨hle, hlt⟩ := steps_le d e
    rw [Dyadic.near_iff, not_or, not_and_or, not_lt, not_lt] at hbelow habove
    have hpow : (0 : ℚ) < 2 ^ d.exponent := by positivity
    have hgap := d.gapBelow_pos
    rw [Dyadic.value] at hle hlt
    -- the point below is short of the interval and the one above beyond it
    have hbelow := hbelow.1.resolve_right (by linarith)
    have habove := habove.1.resolve_left (by linarith [mul_pos hgap hpow])
    push_cast at habove
    linarith

end Neighbourhood

/-! ## The number of digits -/

theorem digitCount_pos (n : ℕ) : 0 < digitCount n := Nat.length_toDigits_pos

theorem lt_ten_pow_digitCount (n : ℕ) : n < 10 ^ digitCount n :=
  (Nat.length_toDigits_le_iff (by decide) (digitCount_pos n)).mp (Nat.le_refl _)

theorem ten_pow_le {n : ℕ} (hn : 0 < n) : 10 ^ (digitCount n - 1) ≤ n := by
  by_contra hlt
  have hlt := Nat.lt_of_not_le hlt
  have hcount := digitCount_pos n
  by_cases hone : digitCount n = 1
  · rw [hone] at hlt
    omega
  · have : digitCount n ≤ digitCount n - 1 :=
      (Nat.length_toDigits_le_iff (by decide) (by omega)).mpr hlt
    omega

/-- The point stands behind the leading digit's place. -/
theorem pointPosition_spec {num den : ℕ} (hnum : 0 < num) (hden : 0 < den) :
    (10 : ℚ) ^ (pointPosition num den - 1) ≤ num / den ∧
      (num : ℚ) / den < 10 ^ pointPosition num den := by
  have hnumq : (0 : ℚ) < num := by exact_mod_cast hnum
  have hdenq : (0 : ℚ) < den := by exact_mod_cast hden
  unfold pointPosition
  split
  · -- at least 1: the digits before the point are those of the whole part
    rename_i hle
    have hpos : 0 < num / den := Nat.div_pos hle hden
    have hlow := ten_pow_le hpos
    have hhigh := lt_ten_pow_digitCount (num / den)
    have hcount := digitCount_pos (num / den)
    generalize digitCount (num / den) = k at *
    rw [show (k : ℤ) - 1 = (k - 1 : ℕ) by omega, zpow_natCast, zpow_natCast]
    constructor
    · rw [le_div_iff₀ hdenq]
      have h : 10 ^ (k - 1) * den ≤ num :=
        Nat.le_trans (Nat.mul_le_mul_right den hlow) (Nat.div_mul_le_self num den)
      exact_mod_cast h
    · rw [div_lt_iff₀ hdenq]
      have h : num < 10 ^ k * den := (Nat.div_lt_iff_lt_mul hden).mp hhigh
      exact_mod_cast h
  · -- less than 1: the zeros behind the point are counted on the reciprocal
    rename_i hlt
    have hpos : 0 < (den - 1) / num := Nat.div_pos (by omega) hnum
    have hlow := ten_pow_le hpos
    have hhigh := lt_ten_pow_digitCount ((den - 1) / num)
    have hcount := digitCount_pos ((den - 1) / num)
    generalize digitCount ((den - 1) / num) = k at *
    rw [show 1 - (k : ℤ) - 1 = -(k : ℤ) by omega, show 1 - (k : ℤ) = -(k - 1 : ℕ) by omega,
      zpow_neg, zpow_neg, zpow_natCast, zpow_natCast, ← one_div, ← one_div]
    constructor
    · rw [div_le_div_iff₀ (by positivity) hdenq, one_mul]
      have h : den - 1 < 10 ^ k * num := (Nat.div_lt_iff_lt_mul hnum).mp hhigh
      rw [Nat.mul_comm] at h
      have h : den ≤ num * 10 ^ k := by omega
      exact_mod_cast h
    · rw [div_lt_div_iff₀ hdenq (by positivity), one_mul]
      have h : 10 ^ (k - 1) * num ≤ den - 1 :=
        Nat.le_trans (Nat.mul_le_mul_right num hlow) (Nat.div_mul_le_self (den - 1) num)
      rw [Nat.mul_comm] at h
      have h : num * 10 ^ (k - 1) < den := by omega
      exact_mod_cast h

/-! ## The shortest decimal -/

/-- Taking off trailing zeros changes the number of digits and nothing else. -/
theorem trim_spec (fuel : ℕ) : ∀ s : Scaled, 0 < s.digits →
    0 < (s.trim fuel).digits ∧
      ((s.trim fuel).digits : ℚ) * 10 ^ (s.trim fuel).exponent = s.digits * 10 ^ s.exponent := by
  induction fuel with
  | zero => exact fun s hs => ⟨hs, rfl⟩
  | succ fuel ih =>
    intro s hs
    rw [Scaled.trim]
    split
    · rename_i hzero
      obtain ⟨hpos, hvalue⟩ := ih ⟨s.digits / 10, s.exponent + 1⟩ (by simp only; omega)
      refine ⟨hpos, hvalue.trans ?_⟩
      -- a last digit of 0 moves into the exponent
      have hten : s.digits = s.digits / 10 * 10 := by omega
      simp only
      rw [zpow_add_one₀ (by norm_num)]
      conv_rhs => rw [hten]
      push_cast
      ring
    · exact ⟨hs, rfl⟩

/-- Seventeen digits are finer than the interval around a double. -/
theorem ten_zpow_lt_width {d : Dyadic} (hd : d.Canonical) :
    (10 : ℚ) ^ (pointPosition d.num d.den - 17) < (1 / 2 + d.gapBelow) * 2 ^ d.exponent := by
  have hpow : (0 : ℚ) < 2 ^ d.exponent := by positivity
  have hnum : 0 < d.num := Nat.mul_pos hd.pos (Nat.pow_pos (by decide))
  have hvalue := (pointPosition_spec hnum (den_pos d)).1
  rw [← Dyadic.value_eq_div, Dyadic.value] at hvalue
  have hscale : (10 : ℚ) ^ (pointPosition d.num d.den - 17) * 10 ^ 16 =
      10 ^ (pointPosition d.num d.den - 1) := by
    rw [← zpow_natCast, ← zpow_add₀ (by norm_num)]
    congr 1
    omega
  -- a mantissa is less than `10 ^ 16` times the width of the interval
  have hmantissa : (d.mantissa : ℚ) < (1 / 2 + d.gapBelow) * 10 ^ 16 := by
    by_cases h : d.mantissa = 2 ^ 52 ∧ -1074 < d.exponent
    · have hgap : d.gapBelow = 1 / 4 := if_pos h
      rw [hgap, h.1]
      norm_num
    · have hgap : d.gapBelow = 1 / 2 := if_neg h
      have hlt : (d.mantissa : ℚ) < 2 ^ 53 := by exact_mod_cast hd.lt
      rw [hgap]
      linarith
  have hwidth : (d.mantissa : ℚ) * 2 ^ d.exponent <
      (1 / 2 + d.gapBelow) * 10 ^ 16 * 2 ^ d.exponent := mul_lt_mul_of_pos_right hmantissa hpow
  linarith

/-- **What is printed is near.** The shortest decimal of a double's magnitude is one of the numbers
that are rounded to it. -/
theorem near_shortest {d : Dyadic} (hd : d.Canonical) (tie : Tie) :
    0 < (shortest tie d).digits ∧
      d.Near ((shortest tie d).digits * 10 ^ (shortest tie d).exponent) := by
  rw [shortest, if_neg (Nat.ne_of_gt hd.pos)]
  simp only
  split
  · -- the coarsest grid with a point, with its trailing zeros taken off
    rename_i s hsome
    obtain ⟨n, -, hpoint⟩ := List.exists_of_findSome?_eq_some hsome
    have hnear := Neighbourhood.near_of_gridPoint? hd hpoint
    have hdigits : 0 < s.digits := by
      have hpos := Double.Near.pos hd hnear
      rcases Nat.eq_zero_or_pos s.digits with h | h
      · rw [h] at hpos
        simp at hpos
      · exact h
    obtain ⟨hpos, hvalue⟩ := trim_spec 18 s hdigits
    rw [hvalue]
    exact ⟨hpos, hnear⟩
  · -- the finest grid of all has a point, so the search does not fail
    rename_i hnone
    obtain ⟨s, hs⟩ : ∃ s, (Neighbourhood.of d).gridPoint? tie _ = some s :=
      Neighbourhood.exists_gridPoint hd (ten_zpow_lt_width hd)
    have hlast := List.findSome?_eq_none_iff.mp hnone 16 (by decide)
    rw [show pointPosition d.num d.den - ((16 : ℕ) + 1 : ℤ) = pointPosition d.num d.den - 17 by omega,
      hs] at hlast
    cases hlast

end FactorStudy.Decimal
