import FactorStudy.Proofs.Stats.Score
import FactorStudy.Proofs.Unrounded.Basic

/-!
# The order of scores

Before rounding, the score under an accepted policy is a weighted mean of five shares between 0 and
1 (`composite_real`). Each share follows its measure in one direction, the drawdown against it, and
no weight is negative. So better measures never score less, and they score more if and only if one
that has a weight gains a share (`composite_le_of_weaker`).
-/

namespace FactorStudy

open Number Unrounded

/-! ## Weighted sums -/

namespace Score

/-- The sum of the shares `cs`, each times its weight. -/
def weighted (ws cs : List ℝ) : ℝ := (ws.zipWith (· * ·) cs).sum

@[simp] theorem weighted_cons (w c : ℝ) (ws cs : List ℝ) :
    weighted (w :: ws) (c :: cs) = w * c + weighted ws cs := rfl

theorem weighted_nonneg {ws cs : List ℝ} (hws : ∀ w ∈ ws, 0 ≤ w) (hcs : ∀ c ∈ cs, 0 ≤ c) :
    0 ≤ weighted ws cs := by
  refine List.sum_nonneg ?_
  rw [← List.map_uncurry_zip_eq_zipWith, List.forall_mem_map]
  rintro ⟨w, c⟩ hpair
  obtain ⟨hw, hc⟩ := List.of_mem_zip hpair
  exact mul_nonneg (hws w hw) (hcs c hc)

/-- A weight of a list that gains a share. -/
def Gains (ws cs ds : List ℝ) : Prop :=
  ∃ w c d, (w, c, d) ∈ ws.zip (cs.zip ds) ∧ 0 < w ∧ c < d

theorem gains_cons_iff {w c d : ℝ} {ws cs ds : List ℝ} :
    Gains (w :: ws) (c :: cs) (d :: ds) ↔ (0 < w ∧ c < d) ∨ Gains ws cs ds := by
  simp only [Gains, List.zip_cons_cons, List.mem_cons, Prod.mk.injEq]
  constructor
  · rintro ⟨w', c', d', ⟨rfl, rfl, rfl⟩ | hmem, h⟩
    · exact .inl h
    · exact .inr ⟨w', c', d', hmem, h⟩
  · rintro (h | ⟨w', c', d', hmem, h⟩)
    · exact ⟨w, c, d, .inl ⟨rfl, rfl, rfl⟩, h⟩
    · exact ⟨w', c', d', .inr hmem, h⟩

/-- Weights that are not negative keep the order of shares, and what gains shows in the sum. -/
theorem weighted_mono {ws cs ds : List ℝ} (hws : ∀ w ∈ ws, 0 ≤ w)
    (hle : List.Forall₂ (· ≤ ·) cs ds) :
    weighted ws cs ≤ weighted ws ds ∧ (weighted ws cs < weighted ws ds ↔ Gains ws cs ds) := by
  induction hle generalizing ws with
  | nil => simp [weighted, Gains]
  | @cons c d cs ds hcd _ ih =>
    cases ws with
    | nil => simp [weighted, Gains]
    | cons w ws =>
      rw [List.forall_mem_cons] at hws
      obtain ⟨hw, hws⟩ := hws
      obtain ⟨hle, hlt⟩ := ih hws
      have hterm : w * c ≤ w * d := mul_le_mul_of_nonneg_left hcd hw
      have hterm_lt : w * c < w * d ↔ 0 < w ∧ c < d := by
        rcases hw.eq_or_lt with rfl | hpos
        · simp
        · simp [hpos]
      rw [weighted_cons, weighted_cons, gains_cons_iff, ← hlt, ← hterm_lt]
      refine ⟨add_le_add hterm hle, fun h => ?_, ?_⟩
      · -- a sum grows only if one of its parts does
        by_contra hnone
        rw [not_or, not_lt, not_lt] at hnone
        exact absurd h (add_le_add hnone.1 hnone.2).not_gt
      · rintro (h | h)
        · exact add_lt_add_of_lt_of_le h hle
        · exact add_lt_add_of_le_of_lt hterm h

end Score

/-! ## Policies of real numbers -/

namespace ScorePolicy

/-- The policy with its values in another arithmetic. -/
def map {α β : Type} (f : α → β) (p : ScorePolicy α) : ScorePolicy β where
  wIc := f p.wIc
  wIcir := f p.wIcir
  wSharpe := f p.wSharpe
  wWinRate := f p.wWinRate
  wDrawdown := f p.wDrawdown
  icFull := f p.icFull
  icirFull := f p.icirFull
  sharpeFull := f p.sharpeFull
  winRateFloor := f p.winRateFloor
  winRateFull := f p.winRateFull
  drawdownZero := f p.drawdownZero

variable {p : ScorePolicy ℝ}

def realWeights (p : ScorePolicy ℝ) : List ℝ :=
  [p.wIc, p.wIcir, p.wSharpe, p.wWinRate, p.wDrawdown]

theorem sum_weights_real : sum (p.map real).weights = real p.realWeights.sum :=
  sum_real p.realWeights

/-- What is checked of a policy of real numbers. -/
structure Sound (p : ScorePolicy ℝ) : Prop where
  weights : ∀ w ∈ p.realWeights, 0 ≤ w
  total : 0 < p.realWeights.sum
  points : ∀ v ∈ [p.icFull, p.icirFull, p.sharpeFull, p.drawdownZero], 0 < v
  winRates : p.winRateFloor < p.winRateFull

theorem validate_real_iff : (p.map real).validate = .ok () ↔ p.Sound := by
  constructor
  · -- in real numbers the checks say just what they compare, since all is finite
    intro h
    have hp := accepted_of_validate h
    refine ⟨fun w hw => ?_, ?_, fun v hv => ?_, real_lt_real.mp hp.winRates⟩
    · have hw := (hp.weights (real w) (List.mem_map_of_mem hw)).2
      rwa [zero_eq, real_lt_real, not_lt] at hw
    · have htotal := hp.total
      rwa [sum_weights_real, zero_eq, real_le_real, not_le] at htotal
    · have hv := (hp.points (real v) (List.mem_map_of_mem hv)).2
      rwa [zero_eq, real_lt_real] at hv
  · intro hp
    refine Accepted.validate ⟨?_, ?_, ?_, real_lt_real.mpr hp.winRates⟩
    · intro _ hw
      obtain ⟨w, hmem, rfl⟩ := List.mem_map.mp (show _ ∈ p.realWeights.map real from hw)
      rw [zero_eq, real_lt_real, not_lt]
      exact ⟨rfl, hp.weights w hmem⟩
    · rw [sum_weights_real, zero_eq, real_le_real, not_le]
      exact hp.total
    · intro _ hv
      obtain ⟨v, hmem, rfl⟩ := List.mem_map.mp
        (show _ ∈ [p.icFull, p.icirFull, p.sharpeFull, p.drawdownZero].map real from hv)
      rw [zero_eq, real_lt_real]
      exact ⟨rfl, hp.points v hmem⟩

end ScorePolicy

/-! ## The score -/

namespace Score

/-- The measures in another arithmetic. -/
def Measures.map {α β : Type} (f : α → β) (m : Measures α) : Measures β where
  icMean := f m.icMean
  icRatio := f m.icRatio
  sharpe := f m.sharpe
  winRate := f m.winRate
  maxDrawdown := f m.maxDrawdown

/-- The part of a full contribution that `v` earns. -/
noncomputable def share (v : ℝ) : ℝ := max 0 (min 1 v)

theorem share_mono : Monotone share := fun _ _ h => max_le_max_left 0 (min_le_min_left 1 h)

theorem share_nonneg (v : ℝ) : 0 ≤ share v := le_max_left _ _

theorem share_le_one (v : ℝ) : share v ≤ 1 := max_le zero_le_one (min_le_left _ _)

theorem unit_real (v : ℝ) : unit (real v) = real (share v) := by
  rw [unit, isFinite_real, if_pos rfl, zero_eq, one_eq, clamp_real v zero_le_one]
  rfl

/-- The five shares, in the order of the weights. -/
noncomputable def shares (m : Measures ℝ) (p : ScorePolicy ℝ) : List ℝ :=
  [share (|m.icMean| / p.icFull), share (|m.icRatio| / p.icirFull), share (m.sharpe / p.sharpeFull),
    share ((m.winRate - p.winRateFloor) / (p.winRateFull - p.winRateFloor)),
    share (1 - |m.maxDrawdown| / p.drawdownZero)]

/-- The weighted mean of the shares, out of 100. -/
noncomputable def mean (m : Measures ℝ) (p : ScorePolicy ℝ) : ℝ :=
  100 * weighted p.realWeights (shares m p) / p.realWeights.sum

variable {p : ScorePolicy ℝ}

theorem contributions_real (hp : p.Sound) (m : Measures ℝ) :
    contributions (m.map real) (p.map real) = (shares m p).map real := by
  have hpoint : ∀ v ∈ [p.icFull, p.icirFull, p.sharpeFull, p.drawdownZero], v ≠ 0 :=
    fun v hv => (hp.points v hv).ne'
  simp only [List.forall_mem_cons] at hpoint
  obtain ⟨hic, hicir, hsharpe, hdrawdown, -⟩ := hpoint
  have hband : p.winRateFull - p.winRateFloor ≠ 0 := (sub_pos.mpr hp.winRates).ne'
  simp only [contributions, Measures.map, ScorePolicy.map, abs_real, real_sub, real_div _ hic,
    real_div _ hicir, real_div _ hsharpe, real_div _ hdrawdown, real_div _ hband, one_eq, unit_real]
  rfl

theorem shares_mem {m : Measures ℝ} {c : ℝ} (h : c ∈ shares m p) : 0 ≤ c ∧ c ≤ 1 := by
  simp only [shares, List.mem_cons, List.not_mem_nil, or_false] at h
  rcases h with rfl | rfl | rfl | rfl | rfl
  all_goals exact ⟨share_nonneg _, share_le_one _⟩

theorem mean_nonneg (hp : p.Sound) (m : Measures ℝ) : 0 ≤ mean m p := by
  have hweighted : 0 ≤ weighted p.realWeights (shares m p) :=
    weighted_nonneg hp.weights fun c hc => (shares_mem hc).1
  have htotal := hp.total
  rw [mean]
  positivity

theorem mean_le_hundred (hp : p.Sound) (m : Measures ℝ) : mean m p ≤ 100 := by
  have hones : List.Forall₂ (· ≤ ·) (shares m p) [1, 1, 1, 1, 1] := by
    simp [shares, share_le_one]
  have hle := (weighted_mono hp.weights hones).1
  have hsum : weighted p.realWeights [1, 1, 1, 1, 1] = p.realWeights.sum := by
    simp [weighted, ScorePolicy.realWeights]
  rw [mean, div_le_iff₀ hp.total]
  exact mul_le_mul_of_nonneg_left (hle.trans_eq hsum) (by norm_num)

/-- **The score of real measures.** -/
theorem composite_real (hp : p.Sound) (m : Measures ℝ) :
    composite (m.map real) (p.map real) = real (mean m p) := by
  have hproducts : (p.map real).weights.zipWith (· * ·) (contributions (m.map real) (p.map real)) =
      (p.realWeights.zipWith (· * ·) (shares m p)).map real := by
    rw [contributions_real hp]
    rfl
  have hhundred : (100 : Unrounded) = real 100 := rfl
  have hmean : max 0 (min 100 (mean m p)) = mean m p := by
    rw [min_eq_right (mean_le_hundred hp m), max_eq_right (mean_nonneg hp m)]
  rw [composite, ScorePolicy.sum_weights_real, hproducts, sum_real, hhundred, real_mul,
    real_div _ hp.total.ne', zero_eq, clamp_real _ (by norm_num)]
  exact (if_pos (real_lt_real.mpr hp.total)).trans (congrArg real hmean)

/-- No measure of `m` is better than that of `n`. -/
structure Weaker (m n : Measures ℝ) : Prop where
  icMean : |m.icMean| ≤ |n.icMean|
  icRatio : |m.icRatio| ≤ |n.icRatio|
  sharpe : m.sharpe ≤ n.sharpe
  winRate : m.winRate ≤ n.winRate
  maxDrawdown : |n.maxDrawdown| ≤ |m.maxDrawdown|

theorem Weaker.shares {m n : Measures ℝ} (h : Weaker m n) (hp : p.Sound) :
    List.Forall₂ (· ≤ ·) (shares m p) (shares n p) := by
  have hpoint := hp.points
  simp only [List.forall_mem_cons] at hpoint
  obtain ⟨hic, hicir, hsharpe, hdrawdown, -⟩ := hpoint
  have hband := sub_pos.mpr hp.winRates
  refine .cons (share_mono ?_) (.cons (share_mono ?_) (.cons (share_mono ?_)
    (.cons (share_mono ?_) (.cons (share_mono ?_) .nil))))
  · exact div_le_div_of_nonneg_right h.icMean hic.le
  · exact div_le_div_of_nonneg_right h.icRatio hicir.le
  · exact div_le_div_of_nonneg_right h.sharpe hsharpe.le
  · exact div_le_div_of_nonneg_right (sub_le_sub_right h.winRate _) hband.le
  · exact sub_le_sub_left (div_le_div_of_nonneg_right h.maxDrawdown hdrawdown.le) 1

/-- **Better measures never score less.** Before rounding, measures that are each at least as good
have at least the score, under every policy that is accepted. They score more where a weight that is
not 0 gains a share.

The score is a weighted mean of shares, and each share rises from 0 to 1 as its measure gets better.
-/
theorem composite_le_of_weaker (h : (p.map real).validate = .ok ()) {m n : Measures ℝ}
    (hmn : Weaker m n) :
    composite (m.map real) (p.map real) ≤ composite (n.map real) (p.map real) ∧
      (composite (m.map real) (p.map real) < composite (n.map real) (p.map real) ↔
        Gains p.realWeights (shares m p) (shares n p)) := by
  have hp := ScorePolicy.validate_real_iff.mp h
  obtain ⟨hle, hlt⟩ := weighted_mono hp.weights (hmn.shares hp)
  rw [composite_real hp, composite_real hp, real_le_real, real_lt_real, ← hlt]
  refine ⟨?_, ?_⟩
  · rw [mean, mean, div_le_div_iff_of_pos_right hp.total]
    exact mul_le_mul_of_nonneg_left hle (by norm_num)
  · rw [mean, mean, div_lt_div_iff_of_pos_right hp.total]
    exact mul_lt_mul_iff_right₀ (by norm_num)

/-- A policy that leaves two of the measures out. -/
noncomputable def sparing : ScorePolicy ℝ where
  wIc := 2.0
  wIcir := 0
  wSharpe := 1
  wWinRate := 0
  wDrawdown := 1
  icFull := 0.05
  icirFull := 0.5
  sharpeFull := 2.0
  winRateFloor := 0
  winRateFull := 1
  drawdownZero := 0.5

theorem sound_sparing : sparing.Sound := by
  refine ⟨?_, ?_, ?_, ?_⟩
  all_goals norm_num [sparing, ScorePolicy.realWeights]

noncomputable def middling : Measures ℝ := ⟨-0.025, 0, 1, 0.5, -0.25⟩

theorem composite_middling : (sparing.map real).validate = .ok () ∧
    Weaker middling { middling with sharpe := 1.5 } ∧
    composite (middling.map real) (sparing.map real) <
      composite (({ middling with sharpe := 1.5 } : Measures ℝ).map real) (sparing.map real) := by
  have haccepted := ScorePolicy.validate_real_iff.mpr sound_sparing
  have hweaker : Weaker middling { middling with sharpe := 1.5 } :=
    ⟨le_rfl, le_rfl, by norm_num [middling], le_rfl, le_rfl⟩
  refine ⟨haccepted, hweaker, (composite_le_of_weaker haccepted hweaker).2.mpr ?_⟩
  refine ⟨1, share (1 / 2.0), share (1.5 / 2.0), ?_, one_pos, ?_⟩
  · simp [sparing, ScorePolicy.realWeights, shares, middling]
  · norm_num [share]

end Score

end FactorStudy
