import FactorStudy.Series.Transform
import FactorStudy.Proofs.Unrounded.Basic
import Mathlib.Data.List.ReduceOption
import Mathlib.Order.Bounds.Defs

/-!
# Series of real numbers with gaps

A series in which each bar has a real number or nothing, and the numbers in it when the gaps are
left out (`List.reduceOption`). These are what the program sees of it as its defined values, and the
least and the greatest of them are those of the numbers.
-/

namespace FactorStudy.Unrounded

open Number Series

/-- A value that may be missing. -/
def ofOption : Option ℝ → Unrounded
  | some v => real v
  | none => undefined

theorem defined_map_ofOption (x : List (Option ℝ)) :
    defined (x.map ofOption) = x.reduceOption.map real := by
  induction x with
  | nil => rfl
  | cons v x ih =>
    cases v with
    | none =>
      rw [List.reduceOption_cons_of_none, ← ih]
      rfl
    | some v =>
      rw [List.reduceOption_cons_of_some, List.map_cons, List.map_cons, ← ih]
      rfl

/-- A function of the numbers, bar by bar. -/
theorem map_ofOption {f : Unrounded → Unrounded} {g : ℝ → ℝ} (hf : ∀ v, f (real v) = real (g v))
    (x : List (Option ℝ)) : Series.map f (x.map ofOption) = (x.map (Option.map g)).map ofOption := by
  rw [Series.map, List.map_map, List.map_map]
  refine List.map_congr_left fun v _ => ?_
  cases v with
  | none => rfl
  | some v =>
    show strict f (real v) = real (g v)
    rw [strict, isNaN_real, if_neg Bool.false_ne_true, hf, orNaN_real]

theorem smaller_infinity (x : ℝ) : smaller Number.infinity (real x) = real x := by
  have hlt : real x < Number.infinity := trivial
  rw [smaller, if_neg (by decide), isNaN_real, if_neg (by decide), if_pos hlt]

/-- The least of some numbers. -/
theorem exists_least {w : List ℝ} (hw : w ≠ []) :
    ∃ lo, least (w.map real) = real lo ∧ IsLeast {v | v ∈ w} lo := by
  obtain ⟨a, w, rfl⟩ := List.exists_cons_of_ne_nil hw
  refine ⟨w.foldl min a, ?_, List.min?_eq_some_iff.mp List.min?_cons'⟩
  rw [least, List.map_cons, List.foldl_cons, smaller_infinity, List.foldl_map]
  exact List.foldl_hom real smaller_real

/-- The greatest of some numbers. -/
theorem exists_greatest {w : List ℝ} (hw : w ≠ []) :
    ∃ hi, greatest (w.map real) = real hi ∧ IsGreatest {v | v ∈ w} hi := by
  obtain ⟨a, w, rfl⟩ := List.exists_cons_of_ne_nil hw
  refine ⟨w.foldl max a, ?_, List.max?_eq_some_iff.mp List.max?_cons'⟩
  rw [greatest, List.map_cons, List.foldl_cons, larger_negInfinity, List.foldl_map]
  exact List.foldl_hom real larger_real

end FactorStudy.Unrounded
