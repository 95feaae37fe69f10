import FactorStudy.Proofs.Evaluation.Prefix
import FactorStudy.Proofs.Unrounded.Basic

/-!
# Skewness and kurtosis

Both are quotients of central moments, so they do not depend on the unit of the values, and they are
defined where the second moment is not 0. The program asks for more: the second moment has to exceed
a tolerance (`tolerance`). The one has the square of the unit, the other has the unit or, about a
mean below 1, none. So a window that is not flat counts as flat in large units and does not in small
ones, and where it changes can be computed (`threshold`). Beyond that point the values are those of
the formulas, in every unit the same.
-/

namespace FactorStudy

open Number Unrounded Series

/-! ## Moments of real numbers -/

namespace Moments

noncomputable section

def mean (w : List ℝ) : ℝ := w.sum / w.length

/-- A central moment. -/
def moment (k : ℕ) (w : List ℝ) : ℝ := mean (w.map fun v => (v - mean w) ^ k)

/-- The adjusted sample skewness. -/
def skew (w : List ℝ) : ℝ :=
  moment 3 w / moment 2 w ^ (1.5 : ℝ) * √(w.length * (w.length - 1 : ℕ)) / (w.length - 2 : ℕ)

/-- The bias-corrected sample excess kurtosis. -/
def kurt (w : List ℝ) : ℝ :=
  ((w.length + 1) * (moment 4 w / moment 2 w ^ 2 - (3 : ℕ)) + (6 : ℕ)) * (w.length - 1 : ℕ) /
    ((w.length - 2 : ℕ) * (w.length - 3 : ℕ))

/-- The spacing of doubles near 1. -/
def spacing : ℝ := 1 / (2 ^ 52 : ℕ)

/-- What the second moment of a window has to exceed. -/
def tolerance (w : List ℝ) : ℝ := spacing * max |mean w| 1

/-- The multiple of a window from which on it does. -/
def threshold (w : List ℝ) : ℝ :=
  max (spacing * |mean w| / moment 2 w) (√(spacing / moment 2 w))

/-- Not all values are equal. -/
def Varied (w : List ℝ) : Prop := ∃ a ∈ w, ∃ b ∈ w, a ≠ b

end

variable {w : List ℝ}

theorem Varied.ne_nil (h : Varied w) : w ≠ [] := by
  obtain ⟨a, ha, -⟩ := h
  exact List.ne_nil_of_mem ha

theorem moment_two_nonneg (w : List ℝ) : 0 ≤ moment 2 w := by
  refine div_nonneg (List.sum_nonneg ?_) (Nat.cast_nonneg _)
  rw [List.forall_mem_map]
  exact fun v _ => sq_nonneg _

theorem moment_two_pos (h : Varied w) : 0 < moment 2 w := by
  refine (moment_two_nonneg w).lt_of_ne' fun hzero => ?_
  have hlen : ((w.map fun v => (v - mean w) ^ 2).length : ℝ) ≠ 0 := by
    rw [List.length_map, Nat.cast_ne_zero]
    exact fun hlen => h.ne_nil (List.length_eq_zero_iff.mp hlen)
  have hsum : (w.map fun v => (v - mean w) ^ 2).sum = 0 := (div_eq_zero_iff.mp hzero).resolve_right hlen
  -- no deviation is left, so each value is the mean
  have hmean : ∀ v ∈ w, v = mean w := by
    intro v hv
    have hle := List.single_le_sum (l := w.map fun v => (v - mean w) ^ 2) (by
      rw [List.forall_mem_map]
      exact fun v _ => sq_nonneg _) _ (List.mem_map_of_mem hv)
    rw [hsum] at hle
    exact sub_eq_zero.mp (pow_eq_zero_iff two_ne_zero |>.mp (le_antisymm hle (sq_nonneg _)))
  obtain ⟨a, ha, b, hb, hne⟩ := h
  exact hne ((hmean a ha).trans (hmean b hb).symm)

/-! ## Other units -/

variable (w) (c : ℝ)

theorem mean_scale : mean (w.map (c * ·)) = c * mean w := by
  rw [mean, mean, List.length_map, List.sum_map_mul_left, List.map_id', mul_div_assoc]

theorem moment_scale (k : ℕ) : moment k (w.map (c * ·)) = c ^ k * moment k w := by
  have hdeviations : ((w.map (c * ·)).map fun v => (v - mean (w.map (c * ·))) ^ k) =
      (w.map fun v => (v - mean w) ^ k).map (c ^ k * ·) := by
    rw [mean_scale, List.map_map, List.map_map]
    refine List.map_congr_left fun v _ => ?_
    rw [Function.comp_apply, Function.comp_apply, ← mul_pow, mul_sub]
  rw [moment, hdeviations, mean_scale, moment]

theorem skew_scale (hc : 0 < c) : skew (w.map (c * ·)) = skew w := by
  have hcube : (c ^ 2) ^ (1.5 : ℝ) = c ^ 3 := by
    rw [← Real.rpow_natCast, ← Real.rpow_mul hc.le, ← Real.rpow_natCast]
    norm_num
  rw [skew, skew, moment_scale, moment_scale, List.length_map,
    Real.mul_rpow (by positivity) (moment_two_nonneg w), hcube, mul_div_mul_left _ _ (by positivity)]

theorem kurt_scale (hc : 0 < c) : kurt (w.map (c * ·)) = kurt w := by
  have hfourth : (c ^ 2 * moment 2 w) ^ 2 = c ^ 4 * moment 2 w ^ 2 := by ring
  rw [kurt, kurt, moment_scale, moment_scale, List.length_map, hfourth,
    mul_div_mul_left _ _ (by positivity)]

variable {w c}

theorem spacing_pos : 0 < spacing := by
  rw [spacing]
  positivity

theorem tolerance_lt_iff (hw : Varied w) (hc : 0 < c) :
    tolerance (w.map (c * ·)) < moment 2 (w.map (c * ·)) ↔ threshold w < c := by
  have hmoment := moment_two_pos hw
  -- the mean grows with `c` and the second moment with its square, so each of the two bounds is a
  -- bound on `c`
  have hfirst : spacing * (c * |mean w|) < c ^ 2 * moment 2 w ↔
      spacing * |mean w| / moment 2 w < c := by
    rw [div_lt_iff₀ hmoment, mul_left_comm, sq, mul_assoc, mul_lt_mul_iff_right₀ hc]
  have hsecond : spacing < c ^ 2 * moment 2 w ↔ √(spacing / moment 2 w) < c := by
    rw [Real.sqrt_lt' hc, div_lt_iff₀ hmoment]
  rw [tolerance, mean_scale, moment_scale, abs_mul, abs_of_pos hc, threshold, max_lt_iff,
    mul_max_of_nonneg _ _ spacing_pos.le, max_lt_iff, mul_one, hfirst, hsecond]

theorem threshold_pos (hw : Varied w) : 0 < threshold w := by
  exact lt_max_of_lt_right (Real.sqrt_pos.mpr (div_pos spacing_pos (moment_two_pos hw)))

/-! ## Windows -/

theorem average_real (hw : w ≠ []) : average (w.map real) = real (mean w) := by
  have hlen : (w.length : ℝ) ≠ 0 := Nat.cast_ne_zero.mpr fun h => hw (List.length_eq_zero_iff.mp h)
  rw [average, sum_real, count, List.length_map]
  exact real_div _ hlen

theorem centralMoment_real {power : Unrounded → Unrounded} {k : ℕ}
    (hpower : ∀ v, power (real v) = real (v ^ k)) (hw : w ≠ []) :
    centralMoment power (w.map real) = real (moment k w) := by
  have hdeviations : ((w.map real).map fun v => power (v - average (w.map real))) =
      (w.map fun v => (v - mean w) ^ k).map real := by
    rw [average_real hw, List.map_map, List.map_map]
    refine List.map_congr_left fun v _ => ?_
    rw [Function.comp_apply, Function.comp_apply, real_sub, hpower]
  have hmoment := average_real (w := w.map fun v => (v - mean w) ^ k) (by simpa using hw)
  rw [average, count, List.length_map, List.length_map] at hmoment
  rw [centralMoment, hdeviations, count, List.length_map]
  exact hmoment

theorem square_real (v : ℝ) : square (real v) = real (v ^ 2) := by
  rw [square, real_mul, sq]

theorem cube_real (v : ℝ) : cube (real v) = real (v ^ 3) := by
  rw [cube, real_mul, real_mul, pow_three']

theorem fourth_real (v : ℝ) : fourth (real v) = real (v ^ 4) := by
  rw [fourth, square_real, real_mul, ← pow_add]

theorem epsilon_eq : (epsilon : Unrounded) = real spacing := by
  show real (2 ^ (-52 : ℤ)) = real spacing
  rw [spacing]
  norm_num

theorem isFlat_real_iff (hw : w ≠ []) :
    isFlat (w.map real) = true ↔ moment 2 w ≤ tolerance w := by
  rw [isFlat, decide_eq_true_iff, centralMoment_real square_real hw, average_real hw, abs_real,
    one_eq, larger_real, epsilon_eq]
  exact Iff.rfl

theorem count_real (w : List ℝ) : count (w.map real) = real w.length := by
  rw [count, List.length_map]
  rfl

theorem tolerance_pos (w : List ℝ) : 0 < tolerance w :=
  mul_pos spacing_pos (lt_max_of_lt_right one_pos)

/-- Enough values, with a second moment above the tolerance. -/
theorem not_short_or_flat {least : ℕ} (hleast : 0 < least) (hlen : least ≤ w.length)
    (hmoment : tolerance w < moment 2 w) :
    ¬((w.map real).length < least ∨ isFlat (w.map real) = true) := by
  rw [List.length_map, isFlat_real_iff (List.ne_nil_of_length_pos (by omega)), not_or]
  exact ⟨by omega, hmoment.not_ge⟩

theorem skewness_real (hlen : 3 ≤ w.length) (hmoment : tolerance w < moment 2 w) :
    skewness (w.map real) = real (skew w) := by
  have hne : w ≠ [] := List.ne_nil_of_length_pos (by omega)
  have hn : (3 : ℝ) ≤ w.length := by exact_mod_cast hlen
  have hpos : 0 < moment 2 w := (tolerance_pos w).trans hmoment
  have hpower : Number.pow (real (moment 2 w)) 1.5 = real (moment 2 w ^ (1.5 : ℝ)) := by
    show realPow _ _ = _
    rw [realPow, if_neg fun h => hpos.ne' h.1, if_neg fun h => hpos.not_gt h.1]
  have hsqrt : Number.sqrt (real (w.length * (w.length - 1))) =
      real √(w.length * (w.length - 1)) := if_pos (mul_nonneg (by linarith) (by linarith))
  have hcount : (w.length : ℝ) - 2 ≠ 0 := by linarith
  rw [skewness, if_neg (not_short_or_flat (by decide) hlen hmoment)]
  simp only [centralMoment_real cube_real hne, centralMoment_real square_real hne, count_real, hpower,
    one_eq, ofNat_eq, real_sub, real_mul, hsqrt]
  rw [real_div _ (Real.rpow_pos_of_pos hpos _).ne', real_mul, real_div _ hcount, skew,
    Nat.cast_sub (show 1 ≤ w.length by omega), Nat.cast_sub (show 2 ≤ w.length by omega), Nat.cast_one,
    Nat.cast_ofNat]

theorem kurtosis_real (hlen : 4 ≤ w.length) (hmoment : tolerance w < moment 2 w) :
    kurtosis (w.map real) = real (kurt w) := by
  have hne : w ≠ [] := List.ne_nil_of_length_pos (by omega)
  have hn : (4 : ℝ) ≤ w.length := by exact_mod_cast hlen
  have hpos : 0 < moment 2 w := (tolerance_pos w).trans hmoment
  have hcount : ((w.length : ℝ) - 2) * (w.length - 3) ≠ 0 :=
    mul_ne_zero (by linarith) (by linarith)
  rw [kurtosis, if_neg (not_short_or_flat (by decide) hlen hmoment)]
  simp only [centralMoment_real fourth_real hne, centralMoment_real square_real hne, count_real,
    one_eq, ofNat_eq, real_sub, real_mul, real_add]
  rw [real_div _ (mul_pos hpos hpos).ne', real_sub, real_mul, real_add, real_mul, real_div _ hcount,
    kurt, sq, Nat.cast_sub (show 1 ≤ w.length by omega), Nat.cast_sub (show 2 ≤ w.length by omega),
    Nat.cast_sub (show 3 ≤ w.length by omega), Nat.cast_one, Nat.cast_ofNat, Nat.cast_ofNat,
    Nat.cast_ofNat]

/-! ## Series -/

/-- What becomes of the windows of `n` values of a series, under a statistic that has a formula for
windows of at least so many. -/
structure Shaped (f : Rolling) (least : ℕ) (formula : List ℝ → ℝ) (x : List Unrounded) (n : ℕ) :
    Prop where
  /-- Windows of fewer values have none. -/
  short : n < least → ∀ v ∈ f.apply x n, v = undefined
  /-- Nor have windows of equal values. -/
  flat : ∀ (i : ℕ) (a : ℝ), trailing? x n i = some (List.replicate n (real a)) →
    (f.apply x n)[i]? = some undefined
  /-- A window of different values has the value of the formula in every multiple of the series above
  its threshold, and none in the others. -/
  varied : ∀ (i : ℕ) (w : List ℝ), least ≤ n → w.length = n → trailing? x n i = some (w.map real) →
    Varied w → 0 < threshold w ∧ ∀ c : ℝ, 0 < c → (f.apply (x.map (real c * ·)) n)[i]? =
      some (if threshold w < c then real (formula w) else undefined)

theorem onWindow_undefined {f : List Unrounded → Unrounded} {w : List Unrounded}
    (h : f w = undefined) : onWindow f w = undefined := by
  rw [onWindow, h]
  split
  · rfl
  · rfl

theorem onWindow_real {f : List Unrounded → Unrounded} {a : ℝ} (h : f (w.map real) = real a) :
    onWindow f (w.map real) = real a := by
  have hdef : (w.map real).any isNaN = false := by
    rw [List.any_map]
    exact List.any_eq_false.mpr fun v _ => Bool.false_ne_true
  rw [onWindow, hdef, if_neg Bool.false_ne_true, h, orNaN_real]

theorem moment_replicate (n : ℕ) (a : ℝ) : moment 2 (List.replicate n a) = 0 := by
  have hmean : ∀ {m : ℕ} {b : ℝ}, m ≠ 0 → mean (List.replicate m b) = b := by
    intro m b hm
    rw [mean, List.sum_replicate, List.length_replicate, nsmul_eq_mul,
      mul_div_cancel_left₀ _ (Nat.cast_ne_zero.mpr hm)]
  rcases eq_or_ne n 0 with rfl | hn
  · rw [moment, mean, List.replicate_zero, List.map_nil, List.sum_nil, zero_div]
  · rw [moment, hmean hn, List.map_replicate, hmean hn, sub_self, zero_pow two_ne_zero]

section Statistic

variable {f : Rolling} {least : ℕ} {formula : List ℝ → ℝ}
  (hnone : ∀ w : List Unrounded, w.length < least ∨ isFlat w = true → f.statistic w = undefined)

include hnone

theorem undefined_of_short {x : List Unrounded} {n : ℕ} (hn : n < least) {v : Unrounded}
    (hv : v ∈ f.apply x n) : v = undefined := by
  obtain ⟨i, hi, rfl⟩ := List.mem_map.mp hv
  cases hw : trailing? x n i with
  | none => rfl
  | some w =>
    refine onWindow_undefined (hnone w (Or.inl ?_))
    rwa [length_of_trailing? hw (List.mem_range.mp hi)]

theorem undefined_of_flat {x : List Unrounded} {n i : ℕ} {a : ℝ}
    (hw : trailing? x n i = some (List.replicate n (real a))) :
    (f.apply x n)[i]? = some undefined := by
  have hne : List.replicate n a ≠ [] := by
    rw [trailing?] at hw
    split at hw
    · rw [Ne, List.replicate_eq_nil_iff]
      omega
    · cases hw
  have hflat : isFlat ((List.replicate n a).map real) = true := by
    rw [isFlat_real_iff hne, moment_replicate]
    exact (tolerance_pos _).le
  rw [Rolling.apply, getElem?_rolling _ hw (lt_of_trailing? hw List.length_replicate),
    ← List.map_replicate, onWindow_undefined (hnone _ (Or.inr hflat))]

theorem value_of_varied (hreal : ∀ w : List ℝ, least ≤ w.length → tolerance w < moment 2 w →
      f.statistic (w.map real) = real (formula w))
    (hscale : ∀ (w : List ℝ) {c : ℝ}, 0 < c → formula (w.map (c * ·)) = formula w)
    {x : List Unrounded} {n i : ℕ} {w : List ℝ} (hn : least ≤ n) (hlen : w.length = n)
    (hw : trailing? x n i = some (w.map real)) (hvaried : Varied w) {c : ℝ} (hc : 0 < c) :
    (f.apply (x.map (real c * ·)) n)[i]? =
      some (if threshold w < c then real (formula w) else undefined) := by
  have hmap : (w.map real).map (real c * ·) = (w.map (c * ·)).map real := by
    rw [List.map_map, List.map_map]
    rfl
  have hscaled : trailing? (x.map (real c * ·)) n i = some ((w.map (c * ·)).map real) := by
    rw [trailing?_map, hw, Option.map_some, hmap]
  have hi := lt_of_trailing? hscaled (by rwa [List.length_map, List.length_map])
  rw [Rolling.apply, getElem?_rolling _ hscaled hi, Option.some.injEq]
  -- the window varies; scaling decides only whether it varies by more than the tolerance
  split
  · rename_i hlt
    refine onWindow_real ?_
    rw [hreal _ (by rwa [List.length_map, hlen]) ((tolerance_lt_iff hvaried hc).mpr hlt), hscale w hc]
  · rename_i hle
    refine onWindow_undefined (hnone _ (Or.inr ?_))
    rw [isFlat_real_iff (by simpa using hvaried.ne_nil), ← not_lt, tolerance_lt_iff hvaried hc]
    exact hle

theorem shaped_of (hreal : ∀ w : List ℝ, least ≤ w.length → tolerance w < moment 2 w →
      f.statistic (w.map real) = real (formula w))
    (hscale : ∀ (w : List ℝ) {c : ℝ}, 0 < c → formula (w.map (c * ·)) = formula w)
    (x : List Unrounded) (n : ℕ) : Shaped f least formula x n where
  short hn _ hv := undefined_of_short hnone hn hv
  flat _ _ hw := undefined_of_flat hnone hw
  varied _ _ hn hlen hw hvaried := ⟨threshold_pos hvaried, fun _ hc =>
    value_of_varied hnone hreal hscale hn hlen hw hvaried hc⟩

end Statistic

/-- **Skewness and kurtosis.** They are undefined on windows that are flat. On every other window
they have the values of their formulas, the same in all multiples of the series above a threshold,
but no values below it.

The threshold comes from comparing the second moment with a multiple of the mean, or of 1 if that is
greater: a square of prices with a price. The two do not scale alike. -/
theorem shaped (x : List Unrounded) (n : ℕ) :
    Shaped .skew 3 skew x n ∧ Shaped .kurt 4 kurt x n := by
  refine ⟨shaped_of (fun w hw => ?_) (fun w => skewness_real) skew_scale x n,
    shaped_of (fun w hw => ?_) (fun w => kurtosis_real) kurt_scale x n⟩
  · exact if_pos hw
  · exact if_pos hw

/-- Three prices in billionths have no skewness, in doubles either. The same prices have one when they
are counted in billionths. -/
theorem shaped_billionths :
    Rolling.skew.apply ([1e-9, 2e-9, 4e-9] : List Float) 3 = [nan, nan, nan] ∧
      (Rolling.skew.apply ([real 1, real 2, real 4].map (real 1e-9 * ·)) 3)[2]? = some undefined ∧
      (Rolling.skew.apply ([real 1, real 2, real 4].map (real 1 * ·)) 3)[2]? =
        some (real (skew [1, 2, 4])) := by
  have hvaried : Varied [1, 2, 4] := ⟨1, by simp, 2, by simp, by norm_num⟩
  obtain ⟨-, hvalue⟩ :=
    (shaped [real 1, real 2, real 4] 3).1.varied 2 [1, 2, 4] le_rfl rfl rfl hvaried
  have hmean : mean [1, 2, 4] = 7 / 3 := by norm_num [mean]
  have hmoment : moment 2 [1, 2, 4] = 14 / 9 := by
    norm_num [moment, hmean]
    norm_num [mean]
  -- the threshold of these prices lies between the two scales
  have hlow : (1e-9 : ℝ) ≤ threshold [1, 2, 4] := by
    rw [threshold, hmean, hmoment]
    refine le_max_of_le_right (Real.le_sqrt_of_sq_le ?_)
    norm_num [spacing]
  have hhigh : threshold [1, 2, 4] < 1 := by
    rw [threshold, hmean, hmoment, max_lt_iff, Real.sqrt_lt' one_pos]
    norm_num [spacing]
  refine ⟨by decide +kernel, ?_, ?_⟩
  · rw [hvalue 1e-9 (by norm_num), if_neg hlow.not_gt]
  · rw [hvalue 1 one_pos, if_pos hhigh]

end Moments

end FactorStudy
