import FactorStudy.Double
import FactorStudy.Stats.Histogram
import FactorStudy.Proofs.Backtest.Layering
import FactorStudy.Proofs.Series.Moments
import FactorStudy.Proofs.Unrounded.Gaps

/-!
# Histograms

The bin of a value is cut to the last one, so in every arithmetic each defined value is in some bin
and the counts add up to the number of values (`lossless`). Which bin is the right one is a question
about real numbers: the quotient by the width is rounded down, which gives half-open bins from the
least value on, and only the greatest value is cut, back into the last bin (`binOf_eq_iff`).
-/

namespace FactorStudy.Histogram

open Number Series

/-! ## Every value is in a bin -/

section Counts

variable {α : Type} [Number α] {x : List α} {bins threshold : ℕ}

theorem counts_eq_nil (h : bins = 0 ∨ (defined x).length ≤ threshold) :
    counts x bins threshold = [] := if_pos h.symm

/-- The width of the bins. -/
def width (x : List α) (bins : ℕ) : α :=
  (greatest (defined x) - least (defined x)) / ofNat bins

/-- The bins of the defined values. -/
def places (x : List α) (bins : ℕ) : List ℕ :=
  (defined x).map (binOf (least (defined x)) (width x bins) bins)

theorem counts_of_spread (hbins : 0 < bins) (hmany : threshold < (defined x).length)
    (hspread : least (defined x) < greatest (defined x)) :
    counts x bins threshold = (List.range bins).map fun i =>
      (least (defined x) + ofNat i * width x bins, (places x bins).count i) := by
  have hsome : ¬((defined x).length ≤ threshold ∨ bins = 0) := by omega
  rw [counts, if_neg hsome]
  exact if_pos hspread

theorem counts_of_flat (hbins : 0 < bins) (hmany : threshold < (defined x).length)
    (hflat : ¬least (defined x) < greatest (defined x)) :
    counts x bins threshold = [(least (defined x), (defined x).length)] := by
  have hsome : ¬((defined x).length ≤ threshold ∨ bins = 0) := by omega
  rw [counts, if_neg hsome]
  exact if_neg hflat

theorem binOf_lt (hbins : 0 < bins) (lo width v : α) : binOf lo width bins v < bins :=
  Nat.lt_of_le_of_lt (Nat.min_le_right _ _) (Nat.sub_lt hbins Nat.one_pos)

theorem counts_eq_nil_iff (x : List α) (bins threshold : ℕ) :
    counts x bins threshold = [] ↔ bins = 0 ∨ (defined x).length ≤ threshold := by
  refine ⟨fun h => ?_, counts_eq_nil⟩
  by_contra hnone
  have hbins : 0 < bins := by omega
  have hmany : threshold < (defined x).length := by omega
  by_cases hspread : least (defined x) < greatest (defined x)
  · rw [counts_of_spread hbins hmany hspread, List.map_eq_nil_iff, List.range_eq_nil] at h
    exact hbins.ne' h
  · rw [counts_of_flat hbins hmany hspread] at h
    exact List.cons_ne_nil _ _ h

/-- A histogram that is not empty counts every defined value once. -/
theorem sum_counts (x : List α) (bins threshold : ℕ) :
    counts x bins threshold = [] ∨
      ((counts x bins threshold).map (·.2)).sum = (defined x).length := by
  by_cases hnone : bins = 0 ∨ (defined x).length ≤ threshold
  · exact Or.inl (counts_eq_nil hnone)
  · right
    have hbins : 0 < bins := by omega
    have hmany : threshold < (defined x).length := by omega
    by_cases hspread : least (defined x) < greatest (defined x)
    · have hplaces : ∀ i ∈ places x bins, i < bins := by
        intro i hi
        obtain ⟨v, -, rfl⟩ := List.mem_map.mp hi
        exact binOf_lt hbins _ _ v
      rw [counts_of_spread hbins hmany hspread, List.map_map]
      exact (sum_count_range hplaces).trans (List.length_map _)
    · rw [counts_of_flat hbins hmany hspread]
      exact List.sum_singleton

/-- There are bins when enough values are defined, and no defined value is left out of them. -/
structure Lossless (x : List α) (bins threshold : ℕ) : Prop where
  eq_nil_iff : counts x bins threshold = [] ↔ bins = 0 ∨ (defined x).length ≤ threshold
  total : counts x bins threshold ≠ [] →
    ((counts x bins threshold).map (·.2)).sum = (defined x).length

theorem lossless (x : List α) (bins threshold : ℕ) : Lossless x bins threshold where
  eq_nil_iff := counts_eq_nil_iff x bins threshold
  total := (sum_counts x bins threshold).resolve_left

end Counts

/-! ## Bins of real numbers -/

open Unrounded Moments

/-- The real numbers of a bin, of equal width between two limits. Only the last one has both its
ends. -/
def bin (lo hi : ℝ) (bins i : ℕ) : Set ℝ :=
  if i + 1 < bins then Set.Ico (lo + i * ((hi - lo) / bins)) (lo + (i + 1) * ((hi - lo) / bins))
  else Set.Icc (lo + i * ((hi - lo) / bins)) hi

section Real

variable {lo hi : ℝ} {bins i : ℕ}

/-- How many bins lie below a value. -/
theorem le_floor_iff {v width : ℝ} (hwidth : 0 < width) (hv : lo ≤ v) (i : ℕ) :
    i ≤ ⌊(v - lo) / width⌋₊ ↔ lo + i * width ≤ v := by
  rw [Nat.le_floor_iff (div_nonneg (sub_nonneg.mpr hv) hwidth.le), le_div_iff₀ hwidth,
    le_sub_iff_add_le, add_comm]

theorem binOf_eq_iff (hlt : lo < hi) {v : ℝ} (hlo : lo ≤ v) (hhi : v ≤ hi) (hbins : bins ≤ maxCount)
    (hi' : i < bins) :
    binOf (real lo) (real ((hi - lo) / bins)) bins (real v) = i ↔ v ∈ bin lo hi bins i := by
  have hpos : (0 : ℝ) < bins := Nat.cast_pos.mpr (Nat.zero_lt_of_lt hi')
  have hwidth : 0 < (hi - lo) / bins := div_pos (sub_pos.mpr hlt) hpos
  have hbin : binOf (real lo) (real ((hi - lo) / bins)) bins (real v) =
      min (min ⌊(v - lo) / ((hi - lo) / bins)⌋₊ maxCount) (bins - 1) := by
    rw [binOf, real_sub, real_div _ hwidth.ne']
    rfl
  have hlower := le_floor_iff hwidth hlo i
  have hupper := le_floor_iff hwidth hlo (i + 1)
  rw [Nat.cast_add, Nat.cast_one] at hupper
  rw [hbin, bin]
  split
  · rw [Set.mem_Ico, ← hlower, ← not_le, ← hupper]
    omega
  · -- the last bin takes all that lies above its lower end
    rw [Set.mem_Icc, ← hlower, and_iff_left hhi]
    omega

end Real

open Classical in
/-- The counts of real numbers, in bins of equal width from the least to the greatest. -/
theorem counts_real {x : List (Option ℝ)} {bins threshold : ℕ} (hvaried : Varied x.reduceOption)
    (hpos : 0 < bins) (hbins : bins ≤ maxCount) (hmany : threshold < x.reduceOption.length) :
    ∃ lo hi, IsLeast {v | v ∈ x.reduceOption} lo ∧ IsGreatest {v | v ∈ x.reduceOption} hi ∧
      counts (x.map ofOption) bins threshold = (List.range bins).map fun i : ℕ =>
        (real (lo + i * ((hi - lo) / bins)),
          x.reduceOption.countP fun v => v ∈ bin lo hi bins i) := by
  have hdefined := defined_map_ofOption x
  obtain ⟨lo, hleast, hlo⟩ := exists_least hvaried.ne_nil
  obtain ⟨hi, hgreatest, hhi⟩ := exists_greatest hvaried.ne_nil
  have hlt : lo < hi := by
    obtain ⟨a, ha, b, hb, hne⟩ := hvaried
    refine (hlo.2 hhi.1).lt_of_ne fun heq => hne ?_
    exact (le_antisymm (hhi.2 ha) (heq ▸ hlo.2 ha)).trans (le_antisymm (heq ▸ hlo.2 hb) (hhi.2 hb))
  have hwidth : width (x.map ofOption) bins = real ((hi - lo) / bins) := by
    rw [width, hdefined, hleast, hgreatest, real_sub]
    exact real_div _ (Nat.cast_pos.mpr hpos).ne'
  refine ⟨lo, hi, hlo, hhi, ?_⟩
  rw [counts_of_spread hpos (by rwa [hdefined, List.length_map])
    (by rwa [hdefined, hleast, hgreatest])]
  -- a value is counted in the bin that its place is rounded down to
  refine List.map_congr_left fun i hi' => ?_
  rw [hwidth, places, hwidth, hdefined, hleast, List.map_map, List.count_eq_countP, List.countP_map]
  refine Prod.ext rfl (List.countP_congr fun v hv => ?_)
  rw [Function.comp_apply, Function.comp_apply, beq_iff_eq, decide_eq_true_iff]
  exact binOf_eq_iff hlt (hlo.2 hv) (hhi.2 hv) hbins (List.mem_range.mp hi')

open Classical in
/-- **Histograms.** No double is left out of a histogram, and there is one when there are bins and
enough values. Without rounding, each bin counts the values between its ends: `bins` half-open
intervals of equal width from the least value on, the last one closed by the greatest. The number of
bins is itself a count of the program, so it is no more than the greatest one. -/
theorem histogram (bins threshold : ℕ) :
    (∀ x : List Float, Lossless x bins threshold) ∧
    ∀ x : List (Option ℝ), Varied x.reduceOption → 0 < bins → bins ≤ maxCount →
      threshold < x.reduceOption.length →
      ∃ lo hi, IsLeast {v | v ∈ x.reduceOption} lo ∧ IsGreatest {v | v ∈ x.reduceOption} hi ∧
        counts (x.map ofOption) bins threshold = (List.range bins).map fun i : ℕ =>
          (real (lo + i * ((hi - lo) / bins)),
            x.reduceOption.countP fun v => v ∈ bin lo hi bins i) :=
  ⟨fun x => lossless x bins threshold, fun _ => counts_real⟩

/-- Five values and a gap in two bins. A value on the edge between them is in the upper one, and so
is the greatest, which is met twice. -/
theorem histogram_onEdges :
    Varied [0, 1, 2, 4, 4] ∧ 2 ≤ maxCount ∧
      counts ([some 0, none, some 1, some 2, some 4, some 4].map ofOption) 2 4 =
        [(real 0, 2), (real 2, 3)] := by
  have hvaried : Varied [0, 1, 2, 4, 4] := ⟨0, by simp, 1, by simp, zero_ne_one⟩
  have hcount : 2 ≤ maxCount := by decide
  obtain ⟨lo, hi, hlo, hhi, hcounts⟩ := (histogram 2 4).2
    [some 0, none, some 1, some 2, some 4, some 4] hvaried (by decide) hcount (by decide)
  have hmem : ∀ v ∈ [(0 : ℝ), 1, 2, 4, 4], 0 ≤ v ∧ v ≤ 4 := by norm_num
  obtain rfl : lo = 0 := hlo.unique ⟨List.mem_cons_self, fun v hv => (hmem v hv).1⟩
  obtain rfl : hi = 4 :=
    hhi.unique ⟨show (4 : ℝ) ∈ [0, 1, 2, 4, 4] by simp, fun v hv => (hmem v hv).2⟩
  refine ⟨hvaried, hcount, hcounts.trans ?_⟩
  simp [List.range_succ, List.reduceOption, bin, List.countP_cons]
  norm_num

end FactorStudy.Histogram
