import Mathlib
import FactorStudy.Backtest.Layers

/-!
# Who is in which layer

The values of a factor are put in order and the order is cut into `quantiles` pieces. Putting them
in order loses none and invents none (`order_perm`), so everyone has one place, and the place alone
settles the layer (`getElem?_assign`): it is below the number of layers, and the layers together
hold every value once.
-/

namespace FactorStudy

open Number

/-- Numbers below `q` are each counted once. -/
theorem sum_count_range {xs : List ℕ} {q : ℕ} (h : ∀ x ∈ xs, x < q) :
    ((List.range q).map fun k => xs.count k).sum = xs.length := by
  have hcard := Multiset.sum_count_eq_card (s := Finset.range q) (m := (xs : Multiset ℕ))
    fun x hx => Finset.mem_range.mpr (h x hx)
  rw [Multiset.coe_card] at hcard
  rw [← hcard]
  simp only [Multiset.coe_count]
  rfl

/-- Entries whose keys are the positions of a list stand at their keys once they are sorted. -/
theorem map_mergeSort_key {γ : Type} {key : γ → ℕ} {l : List γ} {n : ℕ}
    (h : (l.map key).Perm (List.range n)) :
    (l.mergeSort fun p q => decide (key p ≤ key q)).map key = List.range n := by
  have hsorted : ((l.mergeSort fun p q => decide (key p ≤ key q)).map key).Pairwise (· ≤ ·) := by
    rw [List.pairwise_map]
    refine (List.pairwise_mergeSort ?_ ?_ _).imp of_decide_eq_true
    · intro a b c hab hbc
      exact decide_eq_true (Nat.le_trans (of_decide_eq_true hab) (of_decide_eq_true hbc))
    · intro a b
      rw [Bool.or_eq_true, decide_eq_true_iff, decide_eq_true_iff]
      exact Nat.le_total _ _
  exact List.Perm.eq_of_pairwise (fun a b _ _ => Nat.le_antisymm) hsorted List.pairwise_le_range
    (((List.mergeSort_perm l _).map key).trans h)

theorem getElem?_mergeSort_key {γ : Type} {key : γ → ℕ} {l : List γ} {n : ℕ}
    (h : (l.map key).Perm (List.range n)) {a : γ} (ha : a ∈ l) :
    (l.mergeSort fun p q => decide (key p ≤ key q))[key a]? = some a := by
  obtain ⟨j, hj⟩ := List.mem_iff_getElem?.mp ((List.mergeSort_perm l
    fun p q => decide (key p ≤ key q)).mem_iff.mpr ha)
  have hkey : (List.range n)[j]? = some (key a) := by
    rw [← map_mergeSort_key h, List.getElem?_map, hj]
    rfl
  obtain ⟨hlt, hja⟩ := List.getElem?_eq_some_iff.mp hkey
  rw [List.getElem_range] at hja
  rwa [← hja]

namespace Layers

variable {α : Type} [Number α]

/-- Every position is somewhere in the order, once. -/
theorem order_perm (values : List α) : (order values).Perm (List.range values.length) := by
  have hsort := (List.mergeSort_perm values.zipIdx fun p q => totalLe p.1 q.1).map Prod.snd
  rwa [List.zipIdx_map_snd, ← List.range_eq_range'] at hsort

/-- The layers with the positions they belong to, in the order of the values. -/
def placed (values : List α) (quantiles : ℕ) : List (ℕ × ℕ) :=
  (order values).zipIdx.map fun (i, rank) => (i, rank * quantiles / values.length)

/-- The same, back in the order of time. -/
def byPosition (values : List α) (quantiles : ℕ) : List (ℕ × ℕ) :=
  (placed values quantiles).mergeSort fun p q => decide (p.1 ≤ q.1)

theorem byPosition_perm (values : List α) (quantiles : ℕ) :
    (byPosition values quantiles).Perm (placed values quantiles) :=
  List.mergeSort_perm _ _

theorem assign_eq_map (values : List α) (quantiles : ℕ) :
    assign values quantiles = (byPosition values quantiles).map Prod.snd := rfl

theorem map_fst_placed (values : List α) (quantiles : ℕ) :
    (placed values quantiles).map Prod.fst = order values := by
  rw [placed, List.map_map]
  exact List.zipIdx_map_fst 0 (order values)

theorem map_fst_placed_perm (values : List α) (quantiles : ℕ) :
    ((placed values quantiles).map Prod.fst).Perm (List.range values.length) := by
  rw [map_fst_placed]
  exact order_perm values

/-- Back in the order of time every layer stands at the position it belongs to. -/
theorem map_fst_byPosition (values : List α) (quantiles : ℕ) :
    (byPosition values quantiles).map Prod.fst = List.range values.length :=
  map_mergeSort_key (map_fst_placed_perm values quantiles)

theorem length_assign (values : List α) (quantiles : ℕ) :
    (assign values quantiles).length = values.length := by
  have hlen := congrArg List.length (map_fst_byPosition values quantiles)
  rw [List.length_map, List.length_range] at hlen
  rw [assign_eq_map, List.length_map, hlen]

/-- **The place settles the layer.** The value at place `k` of the order is in layer `k * q / n`. -/
theorem getElem?_assign {values : List α} {quantiles k i : ℕ} (h : (order values)[k]? = some i) :
    (assign values quantiles)[i]? = some (k * quantiles / values.length) := by
  have hplaced : (i, k * quantiles / values.length) ∈ placed values quantiles := by
    refine List.mem_map.mpr ⟨(i, k), ?_, rfl⟩
    exact List.mem_zipIdx_iff_getElem?.mpr h
  -- it stands at the position it names
  have hposition : (byPosition values quantiles)[i]? = some (i, k * quantiles / values.length) :=
    getElem?_mergeSort_key (map_fst_placed_perm values quantiles) hplaced
  rw [assign_eq_map, List.getElem?_map, hposition]
  rfl

/-- Every position has a place in the order. -/
theorem exists_place {values : List α} {i : ℕ} (hi : i < values.length) :
    ∃ k < values.length, (order values)[k]? = some i := by
  have hmem : i ∈ order values := (order_perm values).mem_iff.mpr (List.mem_range.mpr hi)
  obtain ⟨k, hk⟩ := List.mem_iff_getElem?.mp hmem
  obtain ⟨hlt, -⟩ := List.getElem?_eq_some_iff.mp hk
  rw [(order_perm values).length_eq, List.length_range] at hlt
  exact ⟨k, hlt, hk⟩

theorem lt_of_mem_assign {values : List α} {quantiles l : ℕ} (hq : 0 < quantiles)
    (h : l ∈ assign values quantiles) : l < quantiles := by
  obtain ⟨i, hi⟩ := List.mem_iff_getElem?.mp h
  have hlt := (List.getElem?_eq_some_iff.mp hi).1
  rw [length_assign] at hlt
  obtain ⟨k, hk, hplace⟩ := exists_place hlt
  rw [getElem?_assign hplace, Option.some.injEq] at hi
  rw [← hi]
  refine Nat.div_lt_of_lt_mul ?_
  exact Nat.mul_lt_mul_of_pos_right hk hq

section Ascending

variable {values : List α} (h : values.Pairwise fun a b => totalLe a b = true)

include h

/-- Values that ascend are in order. -/
theorem order_of_ascending : order values = List.range values.length := by
  have hplaced : values.zipIdx.Pairwise fun p q => totalLe p.1 q.1 = true := by
    rw [← List.zipIdx_map_fst 0 values] at h
    exact List.pairwise_map.mp h
  rw [order, List.mergeSort_of_pairwise hplaced, List.zipIdx_map_snd, List.range_eq_range']

theorem assign_of_ascending (quantiles : ℕ) : assign values quantiles =
    (List.range values.length).map fun k => k * quantiles / values.length := by
  refine List.ext_getElem? fun k => ?_
  by_cases hk : k < values.length
  · have hplace : (order values)[k]? = some k := by
      rw [order_of_ascending h, List.getElem?_range hk]
    rw [getElem?_assign hplace, List.getElem?_map, List.getElem?_range hk, Option.map_some]
  · rw [not_lt] at hk
    rw [List.getElem?_eq_none (by rwa [length_assign]),
      List.getElem?_eq_none (by rwa [List.length_map, List.length_range])]

end Ascending

/-! ## Observations by layer -/

variable {observations : List (Observation α)}

theorem count_summary (annualization : α) (layer : ℕ) :
    (summary observations annualization layer).count =
      (observations.map (·.layer)).count layer := by
  show (List.map _ _).length = _
  rw [List.length_map, List.count_eq_countP, List.countP_map, List.countP_eq_length_filter]
  rfl

end Layers

end FactorStudy
