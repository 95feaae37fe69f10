import FactorStudy.Proofs.Series.Moments
import FactorStudy.Proofs.Unrounded.Gaps

/-!
# Standardized series

Before rounding, a standardized series has the mean 0 and the sample variance 1 whatever its unit and
its origin were, which is why weights of several of them can be compared. The mean and the deviation
come from the values with the gaps left out, and are used on the series with its gaps.
-/

namespace FactorStudy

open Number Unrounded Series

namespace Moments

noncomputable section

/-- The sample variance. -/
def variance (w : List ℝ) : ℝ := (w.map fun v => (v - mean w) ^ 2).sum / (w.length - 1 : ℕ)

/-- The deviation of a value from the mean, in standard deviations. -/
def score (w : List ℝ) (v : ℝ) : ℝ := (v - mean w) / √(variance w)

end

variable {w : List ℝ}

theorem Varied.two_le_length (h : Varied w) : 2 ≤ w.length := by
  obtain ⟨a, ha, b, hb, hne⟩ := h
  rcases w with _ | ⟨c, _ | ⟨d, w⟩⟩
  · exact absurd ha List.not_mem_nil
  · exact absurd ((List.mem_singleton.mp ha).trans (List.mem_singleton.mp hb).symm) hne
  · exact Nat.le_add_left 2 w.length

theorem length_mul_mean (hw : w ≠ []) : w.length * mean w = w.sum :=
  mul_div_cancel₀ _ (Nat.cast_ne_zero.mpr fun h => hw (List.length_eq_zero_iff.mp h))

theorem sum_deviations (hw : w ≠ []) : (w.map fun v => v - mean w).sum = 0 := by
  simp only [sub_eq_add_neg, List.sum_map_add, List.map_id', List.map_const', List.sum_replicate,
    nsmul_eq_mul]
  rw [mul_neg, length_mul_mean hw, add_neg_cancel]

theorem sum_squares_eq (hw : w ≠ []) :
    (w.map fun v => (v - mean w) ^ 2).sum = w.length * moment 2 w := by
  have hne : w.map (fun v => (v - mean w) ^ 2) ≠ [] := by simpa using hw
  rw [moment, ← length_mul_mean hne, List.length_map]

theorem variance_pos (h : Varied w) : 0 < variance w := by
  have hlen := h.two_le_length
  rw [variance, sum_squares_eq h.ne_nil]
  refine div_pos (mul_pos ?_ (moment_two_pos h)) ?_
  · exact_mod_cast (by omega : 0 < w.length)
  · exact_mod_cast (by omega : 0 < w.length - 1)

/-- The deviations from the mean cancel out. -/
theorem sum_scores (hw : w ≠ []) : (w.map (score w)).sum = 0 := by
  have hscale := List.sum_map_mul_right w (fun v => v - mean w) (√(variance w))⁻¹
  simp only [← div_eq_mul_inv] at hscale
  exact hscale.trans (by rw [sum_deviations hw, zero_div])

/-- The squares of the deviations are what the variance was computed from. -/
theorem sum_square_scores (h : Varied w) :
    (w.map fun v => score w v ^ 2).sum = w.length - 1 := by
  have hvariance := variance_pos h
  have hlen := h.two_le_length
  have hcount : ((w.length - 1 : ℕ) : ℝ) ≠ 0 := Nat.cast_ne_zero.mpr (by omega)
  have hsquare : ∀ v, score w v ^ 2 = (v - mean w) ^ 2 / variance w := by
    intro v
    rw [score, div_pow, Real.sq_sqrt hvariance.le]
  have hscale := List.sum_map_mul_right w (fun v => (v - mean w) ^ 2) (variance w)⁻¹
  simp only [← div_eq_mul_inv] at hscale
  have hsum : (w.map fun v => (v - mean w) ^ 2).sum = (w.length - 1 : ℕ) * variance w :=
    (mul_div_cancel₀ _ hcount).symm
  simp only [hsquare]
  rw [hscale, hsum, mul_div_cancel_right₀ _ hvariance.ne', Nat.cast_sub (by omega), Nat.cast_one]

theorem score_le_score_iff (h : Varied w) {a b : ℝ} : score w a ≤ score w b ↔ a ≤ b := by
  rw [score, score, div_le_div_iff_of_pos_right (Real.sqrt_pos.mpr (variance_pos h)),
    sub_le_sub_iff_right]

/-! ## The program's mean and deviation -/

theorem mean?_real (hw : w ≠ []) : mean? (w.map real) = some (real (mean w)) := by
  rw [mean?, average_real hw]
  exact if_neg (by simpa using hw)

theorem std?_real (h : Varied w) : std? (w.map real) = some (real √(variance w)) := by
  have hlen := h.two_le_length
  have hcount : ((w.length - 1 : ℕ) : ℝ) ≠ 0 := Nat.cast_ne_zero.mpr (by omega)
  have hdeviations : ((w.map real).map fun v => (v - real (mean w)) * (v - real (mean w))) =
      (w.map fun v => (v - mean w) ^ 2).map real := by
    rw [List.map_map, List.map_map]
    refine List.map_congr_left fun v _ => ?_
    rw [Function.comp_apply, Function.comp_apply, real_sub, real_mul, sq]
  have hvariance : variance? (w.map real) = some (real (variance w)) := by
    rw [variance?, if_neg (by rw [List.length_map]; omega), average_real h.ne_nil]
    simp only [hdeviations, sum_real, List.length_map]
    exact congrArg some (real_div _ hcount)
  rw [std?, hvariance]
  exact congrArg some (if_pos (variance_pos h).le)

/-- What becomes of a series of different values with gaps. -/
theorem standardize_real {x : List (Option ℝ)} (h : Varied x.reduceOption) :
    standardize (x.map ofOption) = (x.map (Option.map (score x.reduceOption))).map ofOption := by
  have hsd : 0 < √(variance x.reduceOption) := Real.sqrt_pos.mpr (variance_pos h)
  have hpos : 0 < real √(variance x.reduceOption) := by
    rw [zero_eq]
    exact hsd
  simp only [standardize, defined_map_ofOption, mean?_real h.ne_nil, std?_real h, if_pos hpos]
  refine map_ofOption (fun v => ?_) x
  rw [real_sub]
  exact real_div _ hsd.ne'

/-- The series `z` is `x` in standard deviations from its mean. -/
structure Standardized (x z : List (Option ℝ)) : Prop where
  /-- It has a value where `x` has one, and gaps where `x` has gaps. -/
  places : z.map Option.isSome = x.map Option.isSome
  sum_eq : z.reduceOption.sum = 0
  sum_squares : (z.reduceOption.map (· ^ 2)).sum = (x.reduceOption.length : ℝ) - 1
  order : ∀ {i j : ℕ} {a b : ℝ}, x[i]? = some (some a) → x[j]? = some (some b) →
    ∃ c d, z[i]? = some (some c) ∧ z[j]? = some (some d) ∧ (c ≤ d ↔ a ≤ b)

/-- **Standard scores.** Without rounding, every series whose values are not all equal is standardized
to values at the same bars and in the same order, that add up to 0 and whose squares add up to one
less than there are. -/
theorem standardized {x : List (Option ℝ)} (h : Varied x.reduceOption) :
    ∃ z, standardize (x.map ofOption) = z.map ofOption ∧ Standardized x z := by
  refine ⟨_, standardize_real h, ?_, ?_, ?_, fun {i j a b} ha hb => ?_⟩
  · rw [List.map_map]
    exact List.map_congr_left fun v _ => Option.isSome_map
  · rw [List.reduceOption_map]
    exact sum_scores h.ne_nil
  · rw [List.reduceOption_map, List.map_map]
    exact sum_square_scores h
  · refine ⟨score x.reduceOption a, score x.reduceOption b, ?_, ?_, score_le_score_iff h⟩
    · rw [List.getElem?_map, ha]
      rfl
    · rw [List.getElem?_map, hb]
      rfl

theorem standardized_withGap :
    Varied [1, 2, 3] ∧ ∃ z, standardize ([some 1, none, some 2, some 3].map ofOption) =
      z.map ofOption ∧ Standardized [some 1, none, some 2, some 3] z := by
  have hvaried : Varied [1, 2, 3] := ⟨1, by simp, 2, by simp, by norm_num⟩
  exact ⟨hvaried, standardized hvaried⟩

end Moments

end FactorStudy
