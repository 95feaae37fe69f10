import FactorStudy.Stats.Score
import FactorStudy.Proofs.Double.Finite

/-!
# When a score is a number

A policy that was accepted has finite weights, none of them negative, with a positive sum. Its sum
may still overflow, and so may the weighted contributions before they are divided by it. The score
is a number unless both do.
-/

namespace FactorStudy

open Number

namespace ScorePolicy

/-- What is checked of a policy, in any arithmetic. -/
structure Accepted {α : Type} [Number α] (p : ScorePolicy α) : Prop where
  weights : ∀ w ∈ p.weights, isFinite w = true ∧ ¬ w < 0
  total : ¬ sum p.weights ≤ 0
  points : ∀ v ∈ [p.icFull, p.icirFull, p.sharpeFull, p.drawdownZero], isFinite v = true ∧ 0 < v
  winRates : p.winRateFloor < p.winRateFull

theorem accepted_of_validate {α : Type} [Number α] {p : ScorePolicy α} (h : p.validate = .ok ()) :
    p.Accepted := by
  unfold validate at h
  split at h
  · cases h
  · rename_i hweights
    -- the checks one after the other; what passes the last of them has passed all
    split at h
    · cases h
    · rename_i htotal
      split at h
      · cases h
      · rename_i hpoints
        split at h
        · rename_i hwinRates
          refine ⟨fun w hw => ?_, htotal, fun v hv => ?_, hwinRates⟩
          · have hnamed : p.namedWeights.map Prod.snd = p.weights := rfl
            rw [← hnamed] at hw
            obtain ⟨named, hmem, rfl⟩ := List.mem_map.mp hw
            simpa using List.find?_eq_none.mp hweights named hmem
          · have hnamed : p.namedPoints.map Prod.snd =
                [p.icFull, p.icirFull, p.sharpeFull, p.drawdownZero] := rfl
            rw [← hnamed] at hv
            obtain ⟨named, hmem, rfl⟩ := List.mem_map.mp hv
            simpa using List.find?_eq_none.mp hpoints named hmem
        · cases h

/-- Nothing else is checked. -/
theorem Accepted.validate {α : Type} [Number α] {p : ScorePolicy α} (hp : p.Accepted) :
    p.validate = .ok () := by
  unfold ScorePolicy.validate
  split
  · rename_i name w hfound
    have hw := hp.weights w (List.of_mem_zip (List.mem_of_find?_eq_some hfound)).2
    have hfault := List.find?_some hfound
    simp [hw.1, hw.2] at hfault
  · rw [if_neg hp.total]
    split
    · rename_i name v hfound
      have hmem := List.mem_map_of_mem (f := Prod.snd) (List.mem_of_find?_eq_some hfound)
      have hv := hp.points v hmem
      have hfault := List.find?_some hfound
      simp [hv.1, hv.2] at hfault
    · exact if_pos hp.winRates

/-- What is known of the weights of a policy that was accepted. -/
structure Weighted (p : ScorePolicy Float) : Prop where
  finite : ∀ w ∈ p.weights, isFinite w = true
  nonneg : ∀ w ∈ p.weights, Double.Nonneg w
  pos : 0 < sum p.weights

theorem weighted_of_validate {p : ScorePolicy Float} (h : p.validate = .ok ()) : p.Weighted := by
  have hp := accepted_of_validate h
  have hnonneg : ∀ w ∈ p.weights, Double.Nonneg w := fun w hw =>
    ⟨Double.isNaN_of_isFinite (hp.weights w hw).1, (hp.weights w hw).2⟩
  -- a sum of such weights that is not at most 0 lies above it: it is not undefined
  exact ⟨fun w hw => (hp.weights w hw).1, hnonneg,
    (Double.Nonneg.sum hnonneg).pos_of_not_le hp.total⟩

end ScorePolicy

namespace Score

/-! ## The contributions -/

theorem isFinite_unit (v : Float) : isFinite (unit v) = true := by
  unfold unit
  split
  · rename_i h
    rw [Double.isFinite_clamp rfl rfl, Double.isNaN_of_isFinite h]
    rfl
  · rfl

theorem nonneg_unit (v : Float) : Double.Nonneg (unit v) := by
  unfold unit
  split
  · rename_i h
    exact Double.Nonneg.clamp (Double.nonneg_ofNat 1) (Double.isNaN_of_isFinite h)
  · exact Double.nonneg_ofNat 0

theorem exists_unit_of_mem {m : Measures Float} {p : ScorePolicy Float} {c : Float}
    (h : c ∈ contributions m p) : ∃ v, c = unit v := by
  simp only [contributions, List.mem_cons, List.not_mem_nil, or_false] at h
  rcases h with h | h | h | h | h
  all_goals exact ⟨_, h⟩

/-! ## The score -/

/-- The weighted contributions, out of 100 and before they are divided by the weights. -/
def earned (m : Measures Float) (p : ScorePolicy Float) : Float :=
  100 * sum (p.weights.zipWith (· * ·) (contributions m p))

theorem nonneg_products (m : Measures Float) {p : ScorePolicy Float} (hp : p.Weighted) :
    ∀ v ∈ p.weights.zipWith (· * ·) (contributions m p), Double.Nonneg v := by
  rw [← List.map_uncurry_zip_eq_zipWith, List.forall_mem_map]
  rintro ⟨w, c⟩ hpair
  obtain ⟨hw, hc⟩ := List.of_mem_zip hpair
  obtain ⟨v, rfl⟩ := exists_unit_of_mem hc
  exact (hp.nonneg w hw).mul (nonneg_unit v) (hp.finite w hw) (Or.inr (isFinite_unit v))

theorem nonneg_earned (m : Measures Float) {p : ScorePolicy Float} (hp : p.Weighted) :
    Double.Nonneg (earned m p) :=
  (Double.nonneg_ofNat 100).mul (Double.Nonneg.sum (nonneg_products m hp)) rfl
    (Or.inl (by decide +kernel))

/-- **When a score is undefined.** Under an accepted policy it is when the weights and the weighted
contributions have both overflowed. -/
theorem isNaN_composite_iff (m : Measures Float) {p : ScorePolicy Float} (hp : p.Weighted) :
    isNaN (composite m p) = true ↔
      isFinite (earned m p) = false ∧ isFinite (sum p.weights) = false := by
  have hscore : composite m p = clamp 0 100 (earned m p / sum p.weights) := if_pos hp.pos
  rw [hscore, Double.isNaN_clamp rfl rfl]
  exact (nonneg_earned m hp).isNaN_div_iff (Double.Nonneg.sum hp.nonneg) hp.pos

/-- Otherwise it is finite. -/
theorem isFinite_composite_iff (m : Measures Float) {p : ScorePolicy Float} (hp : p.Weighted) :
    isFinite (composite m p) = true ↔
      isFinite (sum p.weights) = true ∨ isFinite (earned m p) = true := by
  have hscore : composite m p = clamp 0 100 (earned m p / sum p.weights) := if_pos hp.pos
  have hdefined := isNaN_composite_iff m hp
  rw [hscore, Double.isNaN_clamp rfl rfl] at hdefined
  rw [hscore, Double.isFinite_clamp rfl rfl, Bool.not_eq_true', ← Bool.not_eq_true, hdefined]
  rw [Bool.eq_false_iff, Bool.eq_false_iff]
  tauto

end Score

end FactorStudy
