import FactorStudy.Proofs.Double.Reach
import FactorStudy.Proofs.Evaluation.Prefix

/-!
# Functions described by others

A difference is described by a delay, a mean by a sum, a variance by a covariance. Each is computed by
code of its own, which takes out infinities at moments of its own, once inside the function or after
every operator. The results are the same all the same, bit for bit.

The reason is that what is not finite stays so: a quotient, a difference or a share of it is not
finite either, and where it is taken out early it would have been taken out late. A minus before the
values turns the order of everything that is defined, so it turns a greatest value into a least one
and keeps its place.
-/

namespace FactorStudy

open Number Double

namespace Series

/-! ## Bar by bar -/

/-- An operation that an undefined operand makes undefined needs no check of its operands. -/
theorem strict₂_of_absorbing {f : Float → Float → Float} (hleft : ∀ y, f nan y = nan)
    (hright : ∀ x, f x nan = nan) (a b : Float) : strict₂ f a b = orNaN (f a b) := by
  unfold strict₂
  split
  · rename_i h
    rcases Bool.or_eq_true_iff.mp h with ha | hb
    · rw [eq_nan_of_isNaN ha, hleft]
      rfl
    · rw [eq_nan_of_isNaN hb, hright]
      rfl
  · rfl

theorem strict₂_sub (a b : Float) : strict₂ (· - ·) a b = orNaN (a - b) :=
  strict₂_of_absorbing (fun _ => rfl) sub_nan a b

theorem strict₂_div (a b : Float) : strict₂ (· / ·) a b = orNaN (a / b) :=
  strict₂_of_absorbing (fun _ => rfl) div_nan a b

/-- A relative change can be computed in two steps. -/
theorem relativeChange_eq (a b : Float) :
    relativeChange a b = strict₂ (· - ·) (strict₂ (· / ·) a b) 1 := by
  rw [strict₂_sub, strict₂_div]
  unfold relativeChange
  split
  · rename_i hb
    rw [orNaN_eq_nan (isFinite_div_zero a hb)]
    rfl
  · cases hfinite : isFinite (a / b) with
    | true => rw [orNaN_eq_self hfinite]
    | false =>
      -- taking 1 off brings no finite value back
      have hdiff : isFinite (a / b - 1) = false := by
        by_contra hdiff
        rw [Bool.not_eq_false] at hdiff
        rw [(isFinite_of_sub hdiff).1] at hfinite
        cases hfinite
      rw [orNaN_eq_nan hfinite, orNaN_eq_nan hdiff]
      rfl

/-- A mean can be computed from a sum without infinities. -/
theorem orNaN_div_eq (a b : Float) : strict₂ (· / ·) (orNaN a) b = orNaN (a / b) := by
  rw [strict₂_div]
  cases hfinite : isFinite a with
  | true => rw [orNaN_eq_self hfinite]
  | false =>
    have hnan : nan / b = nan := rfl
    rw [orNaN_eq_nan hfinite, orNaN_eq_nan (isFinite_div_of_not hfinite b), hnan]
    rfl

theorem delta_eq (x : List Float) (n : ℕ) : delta x n = Series.zipWith (· - ·) x (delay x n) := by
  unfold delta Series.zipWith
  congr 1
  funext a b
  exact (strict₂_sub a b).symm

/-- A series beside a number. -/
theorem zipWith_replicate (f : Float → Float → Float) (x : List Float) (c : Float) :
    Series.zipWith f x (List.replicate x.length c) = x.map fun v => strict₂ f v c := by
  rw [Series.zipWith, ← List.map_const', List.zipWith_map_right, List.zipWith_self]

theorem returns_eq (x : List Float) (n : ℕ) :
    returns x n = Series.zipWith (· - ·) (Series.zipWith (· / ·) x (delay x n))
      (List.replicate (Series.zipWith (· / ·) x (delay x n)).length 1) := by
  rw [zipWith_replicate, returns, Series.zipWith, List.map_zipWith]
  congr 1
  funext a b
  exact relativeChange_eq a b

/-! ## Windows -/

/-- Statistics that agree on each window, after a function of the values and before one of the
results. -/
theorem map_rolling {f g : List Float → Float} {h k : Float → Float} {x : List Float} {n : ℕ}
    (hnan : h nan = nan) (hagree : ∀ w, (∀ v ∈ w, v ∈ x) → w.length = n →
      h (onWindow f (w.map k)) = onWindow g w) :
    (rolling f (x.map k) n).map h = rolling g x n := by
  rw [rolling, rolling, List.map_map, List.length_map]
  refine List.map_congr_left fun i hi => ?_
  rw [Function.comp_apply, trailing?_map]
  cases hw : trailing? x n i with
  | none => exact hnan
  | some w =>
    exact hagree w (fun v => mem_of_mem_trailing? hw)
      (length_of_trailing? hw (List.mem_range.mp hi))

/-- A mean is a share of a sum. -/
theorem mean_eq (x : List Float) (n : ℕ) : Rolling.mean.apply x n =
    Series.zipWith (· / ·) (Rolling.sum.apply x n)
      (List.replicate (Rolling.sum.apply x n).length (ofNat n)) := by
  rw [zipWith_replicate]
  have hwindow : ∀ w : List Float, (∀ v ∈ w, v ∈ x) → w.length = n →
      strict₂ (· / ·) (onWindow sum (w.map id)) (ofNat n) = onWindow average w := by
    intro w _ hw
    rw [List.map_id, onWindow, onWindow]
    split
    · rfl
    · rw [orNaN_div_eq, average, count, hw]
  have hmap := map_rolling (h := fun v => strict₂ (· / ·) v (ofNat n)) rfl hwindow
  rw [List.map_id] at hmap
  exact hmap.symm

/-- A variance is a covariance with itself. -/
theorem var_eq (x : List Float) (n : ℕ) : Rolling.var.apply x n = Pairwise.cov.apply x x n := by
  show rolling windowVariance x n = rollingPair covariance x x n
  rw [rolling, rollingPair, Nat.min_self]
  refine List.map_congr_left fun i _ => ?_
  cases trailing? x n i with
  | none => rfl
  | some w =>
    have hvar : windowVariance w = covariance w w := by
      rw [windowVariance, variance?, covariance]
      split
      · rfl
      · simp only [Option.getD_some, List.zipWith_self]
    show onWindow windowVariance w = onWindows covariance w w
    rw [onWindow, onWindows, Bool.or_self, hvar]

/-! ## A minus before the values -/

theorem orNaN_neg (v : Float) : orNaN (-v) = -orNaN v := by
  cases hfinite : isFinite v with
  | true => rw [orNaN_eq_self hfinite, orNaN_eq_self ((isFinite_neg v).trans hfinite)]
  | false =>
    rw [orNaN_eq_nan hfinite, orNaN_eq_nan ((isFinite_neg v).trans hfinite)]
    rfl

theorem opposite_lt_iff {a b : Float} (ha : isNaN a = false) (hb : isNaN b = false) :
    -b < -a ↔ a < b := by
  rw [lt_iff_value ((isNaN_neg b).trans hb) ((isNaN_neg a).trans ha), lt_iff_value ha hb, value_neg,
    value_neg, neg_lt_neg_iff]

theorem any_isNaN_neg (w : List Float) : (w.map (- ·)).any isNaN = w.any isNaN := by
  rw [List.any_map]
  congr 1
  funext v
  exact isNaN_neg v

theorem isNaN_larger {a b : Float} (ha : isNaN a = false) (hb : isNaN b = false) :
    isNaN (larger a b) = false := by
  rw [larger, ha, hb, if_neg Bool.false_ne_true, if_neg Bool.false_ne_true]
  split
  · exact hb
  · exact ha

theorem smaller_neg {a b : Float} (ha : isNaN a = false) (hb : isNaN b = false) :
    smaller (-a) (-b) = -larger a b := by
  rw [smaller, larger, isNaN_neg, isNaN_neg, ha, hb]
  simp only [if_neg Bool.false_ne_true, opposite_lt_iff ha hb]
  split
  · rfl
  · rfl

/-- The least of the opposites is the opposite of the greatest. -/
theorem least_neg {w : List Float} (hw : ∀ v ∈ w, isNaN v = false) :
    least (w.map (- ·)) = -greatest w := by
  -- the best so far has to stay defined, or a minus would not turn the comparison with it
  have hfold : ∀ s : Float, isNaN s = false →
      (w.map (- ·)).foldl smaller (-s) = -w.foldl larger s := by
    induction w with
    | nil => exact fun _ _ => rfl
    | cons v w ih =>
      intro s hs
      obtain ⟨hv, hw⟩ := List.forall_mem_cons.mp hw
      rw [List.map_cons, List.foldl_cons, List.foldl_cons, smaller_neg hs hv]
      exact ih hw _ (isNaN_larger hs hv)
  exact hfold (-infinity) rfl

section FirstBest

variable {beats beats' : Float → Float → Bool} {k : Float → Float} {w : List Float}
  (h : ∀ a ∈ w, ∀ b ∈ w, beats (k a) (k b) = beats' a b)

include h

/-- The comparisons agree on a window only, so the best so far is kept inside it. -/
theorem foldl_best_map (l : List (Float × ℕ)) : ∀ best : Float × ℕ, best.1 ∈ w →
    (∀ p ∈ l, p.1 ∈ w) →
    (l.map (Prod.map k id)).foldl (fun best p => if beats p.1 best.1 then p else best)
      (Prod.map k id best) =
    Prod.map k id (l.foldl (fun best p => if beats' p.1 best.1 then p else best) best) := by
  induction l with
  | nil => exact fun _ _ _ => rfl
  | cons p l ih =>
    intro best hbest hl
    obtain ⟨hp, hl⟩ := List.forall_mem_cons.mp hl
    rw [List.map_cons, List.foldl_cons, List.foldl_cons, ← ih _ ?_ hl]
    · congr 1
      show (if beats (k p.1) (k best.1) then _ else _) = _
      rw [h _ hp _ hbest]
      split
      · rfl
      · rfl
    · -- the best so far stays one of the values of the window
      split
      · exact hp
      · exact hbest

/-- The first of the best goes with the values. -/
theorem firstBest_map : firstBest beats (w.map k) = firstBest beats' w := by
  cases w with
  | nil => rfl
  | cons v rest =>
    have hrest : ∀ p ∈ rest.zipIdx 1, p.1 ∈ v :: rest := by
      intro p hp
      refine List.mem_cons_of_mem _ ?_
      rw [← List.zipIdx_map_fst 1 rest]
      exact List.mem_map_of_mem hp
    rw [List.map_cons, firstBest, firstBest, List.zipIdx_map]
    have hplace := congrArg Prod.snd
      (foldl_best_map h (rest.zipIdx 1) (v, 0) List.mem_cons_self hrest)
    exact hplace

end FirstBest

/-- The first greatest of the opposites is the first least. -/
theorem offsetOfMax_neg {w : List Float} (hw : ∀ v ∈ w, isNaN v = false) :
    offsetOfMax (w.map (- ·)) = offsetOfMin w := by
  rw [offsetOfMax, offsetOfMin, firstBest_map]
  intro a ha b hb
  exact decide_eq_decide.mpr (opposite_lt_iff (hw a ha) (hw b hb))

theorem isNaN_of_any {w : List Float} (hw : ¬w.any isNaN = true) : ∀ v ∈ w, isNaN v = false := by
  intro v hv
  by_contra hnan
  exact hw (List.any_eq_true.mpr ⟨v, hv, Bool.eq_true_of_not_eq_false hnan⟩)

theorem argmin_eq (x : List Float) (n : ℕ) :
    Rolling.argmin.apply x n = Rolling.argmax.apply (x.map (- ·)) n := by
  show rolling offsetOfMin x n = rolling offsetOfMax (x.map (- ·)) n
  rw [← map_rolling (f := offsetOfMax) (h := id) (k := (- ·)) rfl, List.map_id]
  intro w _ _
  rw [id, onWindow, onWindow, any_isNaN_neg]
  split
  · rfl
  · rename_i hw
    rw [offsetOfMax_neg (isNaN_of_any hw)]

theorem max_eq (x : List Float) (n : ℕ) :
    Rolling.max.apply x n = (Rolling.min.apply (x.map (- ·)) n).map (- ·) := by
  show rolling greatest x n = (rolling least (x.map (- ·)) n).map (- ·)
  rw [map_rolling (f := least) (g := greatest) (h := (- ·)) (k := (- ·)) rfl]
  intro w _ _
  rw [onWindow, onWindow, any_isNaN_neg]
  split
  · rfl
  · rename_i hw
    rw [least_neg (isNaN_of_any hw), orNaN_neg, Double.neg_neg]

end Series

end FactorStudy
