import FactorStudy.Proofs.Series.Percentile
import FactorStudy.Series.Transform

/-!
# Limits that cross

Moving values between their 1st and 99th percentiles takes for granted that the 1st is not above the
99th. It is not, unless a step between two neighbours is too large for a double: the 1st percentile
is infinite if the step at its position is, and is then above the 99th if that is finite. So one
value far below the others, with the others far above 0, leaves nothing between the limits
(`winsorized_farBelow`). Otherwise all is as expected (`winsorized`).
-/

namespace FactorStudy

open Number Double

namespace Series

/-! ## The limits -/

/-- The step that the 1st percentile is interpolated on. -/
def lowStep (x : List Float) : Float := step (ascending (defined x)) 0.01

/-- The step that the 99th percentile is interpolated on. -/
def highStep (x : List Float) : Float := step (ascending (defined x)) 0.99

theorem fraction_of {q : Float} (hfinite : isFinite q = true) (hpos : 0 ≤ q) (hlt : q < 1) :
    Fraction q := by
  have hdef := isNaN_of_isFinite hfinite
  rw [le_iff_value rfl hdef, value_zero] at hpos
  rw [lt_iff_value hdef rfl, value_one] at hlt
  exact ⟨hfinite, hpos, hlt⟩

theorem fraction_low : Fraction 0.01 := fraction_of rfl (by decide +kernel) (by decide +kernel)

theorem fraction_high : Fraction 0.99 := fraction_of rfl (by decide +kernel) (by decide +kernel)

theorem value_low_le_high : value 0.01 ≤ value 0.99 :=
  (le_iff_value rfl rfl).mp (by decide +kernel)

theorem limits?_eq_some_iff {x : List Float} {lo hi : Float} : limits? x = some (lo, hi) ↔
    percentile? (ascending (defined x)) 0.01 = some lo ∧
      percentile? (ascending (defined x)) 0.99 = some hi := by
  simp only [limits?, Option.bind_eq_bind, Option.bind_eq_some_iff, Option.pure_def,
    Option.some.injEq, Prod.mk.injEq]
  constructor
  · rintro ⟨a, ha, b, hb, rfl, rfl⟩
    exact ⟨ha, hb⟩
  · rintro ⟨ha, hb⟩
    exact ⟨lo, ha, hi, hb, rfl, rfl⟩

theorem limits?_eq_none {x : List Float} (h : defined x = []) : limits? x = none := by
  have hempty : ascending (defined x) = [] := by rw [h, ascending, List.mergeSort_nil]
  rw [limits?, hempty]
  rfl

/-- The defined values of a series are finite and are put in ascending order. -/
theorem ascending_spec (x : FactorSeries Float) (hsize : x.size < 2 ^ 64)
    (hsome : defined x.values ≠ []) : Ascending (ascending (defined x.values)) := by
  have hperm : (ascending (defined x.values)).Perm (defined x.values) := List.mergeSort_perm _ _
  have hfinite : ∀ v ∈ ascending (defined x.values), isFinite v = true := by
    intro v hv
    exact x.isFinite_of_defined (hperm.mem_iff.mp hv)
  refine ⟨hfinite, ?_, ?_, ?_⟩
  · refine (List.pairwise_mergeSort totalLe_trans totalLe_total _).imp_of_mem ?_
    intro v w hv hw hle
    exact value_le_of_totalOrderKey_le (isNaN_of_isFinite (hfinite v hv))
      (isNaN_of_isFinite (hfinite w hw)) (of_decide_eq_true hle)
  · exact fun hnil => hsome (List.Perm.nil_eq (hnil ▸ hperm)).symm
  · rw [hperm.length_eq]
    exact Nat.lt_of_le_of_lt (List.length_filter_le _ _) hsize

/-! ## Values between limits -/

section Clamp

variable {lo hi v : Float} (hlo : isNaN lo = false) (hhi : isNaN hi = false) (hv : isNaN v = false)
  (hle : lo ≤ hi)

include hlo hhi hv hle

/-- A defined value is moved to a limit or is between the limits. -/
theorem clamp_cases : (v ≤ lo ∧ clamp lo hi v = lo) ∨ (lo ≤ v ∧ hi ≤ v ∧ clamp lo hi v = hi) ∨
    (lo ≤ v ∧ v ≤ hi ∧ clamp lo hi v = v) := by
  rw [le_iff_value hv hlo, le_iff_value hlo hv, le_iff_value hhi hv, le_iff_value hv hhi]
  rw [le_iff_value hlo hhi] at hle
  unfold clamp
  by_cases hlow : v < lo
  · rw [if_pos hlow, if_neg (by rw [lt_iff_value hhi hlo]; exact not_lt.mpr hle)]
    exact Or.inl ⟨((lt_iff_value hv hlo).mp hlow).le, rfl⟩
  · rw [if_neg hlow]
    rw [lt_iff_value hv hlo, not_lt] at hlow
    by_cases hhigh : hi < v
    · rw [if_pos hhigh]
      exact Or.inr (Or.inl ⟨hlow, ((lt_iff_value hhi hv).mp hhigh).le, rfl⟩)
    · rw [if_neg hhigh]
      rw [lt_iff_value hhi hv, not_lt] at hhigh
      exact Or.inr (Or.inr ⟨hlow, hhigh, rfl⟩)

theorem clamp_mem : lo ≤ clamp lo hi v ∧ clamp lo hi v ≤ hi := by
  have hself : ∀ {x : Float}, isNaN x = false → x ≤ x := fun hx => (le_iff_value hx hx).mpr le_rfl
  obtain ⟨-, h⟩ | ⟨-, -, h⟩ | ⟨hlow, hhigh, h⟩ := clamp_cases hlo hhi hv hle
  · rw [h]
    exact ⟨hself hlo, hle⟩
  · rw [h]
    exact ⟨hle, hself hhi⟩
  · rw [h]
    exact ⟨hlow, hhigh⟩

/-- A finite value that is raised to a finite limit at most stays finite. -/
theorem isFinite_clamp_of_low (hfinite : isFinite lo = true) (hv' : isFinite v = true) :
    isFinite (clamp lo hi v) = true := by
  obtain ⟨-, h⟩ | ⟨-, hhigh, h⟩ | ⟨-, -, h⟩ := clamp_cases hlo hhi hv hle
  · rwa [h]
  · -- the upper limit is between two finite doubles
    rw [h]
    exact isFinite_of_between hfinite hv' hhi ((le_iff_value hlo hhi).mp hle)
      ((le_iff_value hhi hv).mp hhigh)
  · rwa [h]

end Clamp

/-! ## The order of the limits -/

section Limits

variable {x : FactorSeries Float} {lo hi : Float} (hsize : x.size < 2 ^ 64)

include hsize

theorem exists_limits (hsome : defined x.values ≠ []) : ∃ lo hi, limits? x.values = some (lo, hi) :=
  have hs := ascending_spec x hsize hsome
  ⟨_, _, limits?_eq_some_iff.mpr ⟨percentile?_eq hs.nonempty _, percentile?_eq hs.nonempty _⟩⟩

variable (h : limits? x.values = some (lo, hi))

include h

theorem ascending_of_limits : Ascending (ascending (defined x.values)) := by
  refine ascending_spec x hsize fun hnone => ?_
  rw [limits?_eq_none hnone] at h
  cases h

theorem isNaN_limits : isNaN lo = false ∧ isNaN hi = false := by
  have hs := ascending_of_limits hsize h
  obtain ⟨hlo, hhi⟩ := limits?_eq_some_iff.mp h
  exact ⟨isNaN_percentile? hs fraction_low hlo, isNaN_percentile? hs fraction_high hhi⟩

theorem isFinite_low (hstep : isFinite (lowStep x.values) = true) : isFinite lo = true := by
  obtain ⟨hlo, -⟩ := limits?_eq_some_iff.mp h
  obtain ⟨r, hr, hfinite, -, -⟩ :=
    percentile?_mem (ascending_of_limits hsize h) fraction_low hstep
  rw [hr, Option.some.injEq] at hlo
  exact hlo ▸ hfinite

theorem limits_le_iff :
    lo ≤ hi ↔ isFinite (lowStep x.values) = true ∨ isFinite (highStep x.values) = false := by
  obtain ⟨hlo, hhi⟩ := limits?_eq_some_iff.mp h
  exact percentile?_le_iff (ascending_of_limits hsize h) fraction_low fraction_high
    value_low_le_high hlo hhi

end Limits

/-- Without values there are no steps. -/
theorem step_of_none {x : List Float} (h : defined x = []) (q : Float) :
    step (ascending (defined x)) q = nan - nan := by
  rw [step, entryAbove, entryBelow, h, ascending, List.mergeSort_nil, List.getD_nil, List.getD_nil]

theorem limitsCross_eq {x : List Float} {lo hi : Float} (h : limits? x = some (lo, hi)) :
    limitsCross x = !decide (lo ≤ hi) := by
  rw [limitsCross, h, Option.any_some]

/-- **When the limits cross**: if the step at the 1st percentile is too large, and the step at the
99th is not. -/
theorem limitsCross_iff {x : FactorSeries Float} (hsize : x.size < 2 ^ 64) :
    limitsCross x.values = true ↔
      isFinite (lowStep x.values) = false ∧ isFinite (highStep x.values) = true := by
  rcases eq_or_ne (defined x.values) [] with hnone | hsome
  · rw [limitsCross, limits?_eq_none hnone, Option.any_none, lowStep, highStep, step_of_none hnone,
      step_of_none hnone]
    decide +kernel
  · obtain ⟨lo, hi, hlimits⟩ := exists_limits hsize hsome
    rw [limitsCross_eq hlimits, Bool.not_eq_true', decide_eq_false_iff_not,
      limits_le_iff hsize hlimits, not_or, Bool.not_eq_true, Bool.not_eq_false]

/-! ## Winsorizing -/

section Outcome

variable {x : List Float}

theorem length_winsorize (x : List Float) : (winsorize x).length = x.length := by
  unfold winsorize
  split
  · exact List.length_map ..
  · exact List.length_map ..

theorem winsorize_undefined {i : ℕ} {v : Float} (hv : x[i]? = some v) (hundefined : isNaN v = true) :
    (winsorize x)[i]? = some nan := by
  unfold winsorize
  split
  · rw [map, List.getElem?_map, hv, Option.map_some, strict, if_pos hundefined]
  · rw [nowhere, List.getElem?_map, hv, Option.map_some]

theorem winsorize_eq {lo hi : Float} (h : limits? x = some (lo, hi)) :
    winsorize x = map (clamp lo hi) x := by
  rw [winsorize, h]

end Outcome

/-- What winsorizing makes of a series. -/
structure Winsorized (x : List Float) : Prop where
  /-- Both limits are defined as soon as one value is. -/
  limits : defined x ≠ [] → ∃ lo hi, limits? x = some (lo, hi) ∧ isNaN lo = false ∧ isNaN hi = false
  /-- They cross if the step at the 1st percentile is too large and the step at the 99th is not. -/
  cross : limitsCross x = true ↔ isFinite (lowStep x) = false ∧ isFinite (highStep x) = true
  length : (winsorize x).length = x.length
  undefined : ∀ (i : ℕ) (v : Float), x[i]? = some v → isNaN v = true → (winsorize x)[i]? = some nan
  /-- Defined values stay defined if the step at the 1st percentile is not too large. -/
  kept : isFinite (lowStep x) = true → ∀ (i : ℕ) (v : Float), x[i]? = some v → isNaN v = false →
    ∃ r, (winsorize x)[i]? = some r ∧ isNaN r = false
  /-- All that is defined lies between the limits, unless they cross. -/
  inside : limitsCross x = false → ∀ lo hi, limits? x = some (lo, hi) →
    ∀ r ∈ winsorize x, isNaN r = false → lo ≤ r ∧ r ≤ hi

/-- **Winsorizing a series** stops the program if the step at the 1st percentile alone is too large
for a double. Otherwise the limits are in order, undefined values stay undefined and the others lie
between the limits.

The step is the difference of the two neighbours between which a percentile lies. Two finite doubles
can be so far apart that it is infinite, and so is the percentile then, which is all right for the
upper limit but not for the lower one. -/
theorem winsorized (x : FactorSeries Float) (hsize : x.size < 2 ^ 64) : Winsorized x.values := by
  refine ⟨?_, limitsCross_iff hsize, length_winsorize _, fun i v => winsorize_undefined, ?_, ?_⟩
  · intro hsome
    obtain ⟨lo, hi, hlimits⟩ := exists_limits hsize hsome
    exact ⟨lo, hi, hlimits, isNaN_limits hsize hlimits⟩
  · -- with a finite step the lower limit is finite, so values are moved to finite ones
    intro hstep i v hv hdef
    have hmem : v ∈ defined x.values :=
      List.mem_filter.mpr ⟨List.mem_of_getElem? hv, by rw [hdef]; rfl⟩
    obtain ⟨lo, hi, hlimits⟩ := exists_limits hsize (List.ne_nil_of_mem hmem)
    obtain ⟨hlo, hhi⟩ := isNaN_limits hsize hlimits
    have hle := (limits_le_iff hsize hlimits).mpr (Or.inl hstep)
    have hclamp := isFinite_clamp_of_low hlo hhi hdef hle (isFinite_low hsize hlimits hstep)
      (x.isFinite_of_defined hmem)
    refine ⟨clamp lo hi v, ?_, isNaN_of_isFinite hclamp⟩
    rw [winsorize_eq hlimits, map, List.getElem?_map, hv, Option.map_some, strict,
      if_neg (by rw [hdef]; decide), orNaN_eq_self hclamp]
  · -- whenever the limits are in order, what is left lies between them
    intro hcross lo hi hlimits r hr hdef
    obtain ⟨hlo, hhi⟩ := isNaN_limits hsize hlimits
    rw [limitsCross_eq hlimits, Bool.not_eq_false', decide_eq_true_iff] at hcross
    rw [winsorize_eq hlimits] at hr
    obtain ⟨v, -, rfl⟩ := List.mem_map.mp hr
    unfold strict at hdef ⊢
    split at hdef
    · cases hdef
    · rename_i hv
      rw [if_neg hv, orNaN_eq_self (isFinite_of_isNaN_orNaN hdef)]
      exact clamp_mem hlo hhi (Bool.eq_false_of_not_eq_true hv) hcross

/-- A value close to the greatest double. -/
def far : Float := 1.7e308

/-- One value as far below 0 as the others are above it. -/
def farBelow : FactorSeries Float := FactorSeries.ofValues [-far, far, far]

theorem winsorized_farBelow : farBelow.size < 2 ^ 64 ∧ Winsorized farBelow.values ∧
    limitsCross farBelow.values = true := by
  have hspec := winsorized farBelow (by decide)
  have hvalues : farBelow.values = [-far, far, far] := by decide +kernel
  have hsorted : ascending (defined farBelow.values) = [-far, far, far] := by
    have hdefined : defined [-far, far, far] = [-far, far, far] := by decide +kernel
    rw [hvalues, hdefined]
    exact List.mergeSort_of_pairwise (by decide +kernel)
  refine ⟨by decide, hspec, hspec.cross.mpr ⟨?_, ?_⟩⟩
  · rw [lowStep, hsorted]
    decide +kernel
  · rw [highStep, hsorted]
    decide +kernel

end Series

end FactorStudy
