import Mathlib
import FactorStudy.Proofs.Backtest.Layering
import FactorStudy.Proofs.Double.TotalOrder

/-!
# Layers of equal frequency

Cutting the order of `n` values into `q` layers puts the places from `⌈k n / q⌉` up to
`⌈(k + 1) n / q⌉` into layer `k`. So the layers are as equal in size as they can be, and they follow
the values: whoever comes before another in the order is not in a higher layer. The order itself is
the one that puts values by their place in the total order and equals by their place in time
(`eq_order`).
-/

namespace FactorStudy

open Number

namespace Layers

/-! ## The order of the values -/

section Order

variable (values : List Float)

/-- The place of the value at position `i` in the total order. -/
def key (i : ℕ) : ℤ := totalOrderKey (values.getD i nan)

/-- Position `i` comes before position `j`: by the values, or in time between equal ones. -/
def Before (i j : ℕ) : Prop := key values i < key values j ∨ key values i = key values j ∧ i < j

/-- The values with their positions, in ascending order. -/
def sorted : List (Float × ℕ) := values.zipIdx.mergeSort fun p q => totalLe p.1 q.1

theorem order_trans (p q r : Float × ℕ) (hpq : totalLe p.1 q.1 = true)
    (hqr : totalLe q.1 r.1 = true) : totalLe p.1 r.1 = true :=
  totalLe_trans p.1 q.1 r.1 hpq hqr

theorem order_total (p q : Float × ℕ) : (totalLe p.1 q.1 || totalLe q.1 p.1) = true :=
  totalLe_total p.1 q.1

theorem pairwise_sorted :
    (sorted values).Pairwise fun p q => totalOrderKey p.1 ≤ totalOrderKey q.1 :=
  (List.pairwise_mergeSort order_trans order_total _).imp of_decide_eq_true

/-- Sorting leaves values that are equal in the total order as they stand. -/
theorem filter_sorted (v : ℤ) :
    (sorted values).filter (fun p => totalOrderKey p.1 == v) =
      values.zipIdx.filter fun p => totalOrderKey p.1 == v := by
  have hequal : (values.zipIdx.filter fun p => totalOrderKey p.1 == v).Pairwise
      fun p q => totalLe p.1 q.1 = true := by
    refine List.pairwise_of_forall_mem_list ?_
    intro p hp q hq
    have hp := eq_of_beq (List.mem_filter.mp hp).2
    have hq := eq_of_beq (List.mem_filter.mp hq).2
    exact decide_eq_true (hp.trans hq.symm).le
  -- they are already in order, so the sorted list has them in this order
  have hsub := (List.sublist_mergeSort order_trans order_total hequal
    List.filter_sublist).filter fun p => totalOrderKey p.1 == v
  rw [List.filter_filter] at hsub
  simp only [Bool.and_self] at hsub
  refine (hsub.eq_of_length ?_).symm
  exact ((List.mergeSort_perm _ _).filter _).length_eq.symm

variable {values}

theorem Before.antisymm {i j : ℕ} (hij : Before values i j) (hji : Before values j i) : i = j := by
  unfold Before at hij hji
  omega

theorem key_of_mem_sorted {p : Float × ℕ} (h : p ∈ sorted values) :
    key values p.2 = totalOrderKey p.1 := by
  have hat : values[p.2]? = some p.1 :=
    List.mem_zipIdx_iff_getElem?.mp ((List.mergeSort_perm _ _).mem_iff.mp h)
  rw [key, List.getD_eq_getElem?_getD, hat, Option.getD_some]

variable (values) in
/-- **The order of the values**: each position comes before the later ones. -/
theorem pairwise_order : (order values).Pairwise (Before values) := by
  refine List.pairwise_map.mpr (List.pairwise_iff_forall_sublist.mpr ?_)
  intro p q hpq
  have hp : p ∈ sorted values := hpq.subset (List.mem_cons_self ..)
  have hq : q ∈ sorted values := hpq.subset (List.mem_cons_of_mem _ (List.mem_cons_self ..))
  have hle := List.pairwise_iff_forall_sublist.mp (pairwise_sorted values) hpq
  rw [Before, key_of_mem_sorted hp, key_of_mem_sorted hq]
  refine hle.lt_or_eq.imp_right fun heq => ⟨heq, ?_⟩
  -- equals stand as in the list of all values, whose positions increase
  have hboth : [p, q].Sublist
      (values.zipIdx.filter fun r => totalOrderKey r.1 == totalOrderKey q.1) := by
    rw [← filter_sorted]
    have hboth := hpq.filter fun r => totalOrderKey r.1 == totalOrderKey q.1
    rwa [List.filter_eq_self.mpr] at hboth
    simp only [List.forall_mem_cons, heq, beq_self_eq_true, true_and]
    exact List.forall_mem_nil _
  have hplaces : (values.zipIdx.map Prod.snd).Pairwise (· < ·) := by
    rw [List.zipIdx_map_snd, ← List.range_eq_range']
    exact List.pairwise_lt_range
  exact List.pairwise_iff_forall_sublist.mp (List.pairwise_map.mp hplaces)
    (hboth.trans List.filter_sublist)

/-- No other list of the positions is in order. -/
theorem eq_order {places : List ℕ} (hperm : places.Perm (List.range values.length))
    (hbefore : places.Pairwise (Before values)) : places = order values :=
  List.Perm.eq_of_pairwise (fun _ _ _ _ => Before.antisymm) hbefore (pairwise_order values)
    (hperm.trans (order_perm values).symm)

/-- Who comes before another is not in a higher layer. -/
theorem layer_le_of_before {quantiles i j l m : ℕ}
    (hl : (assign values quantiles)[i]? = some l) (hm : (assign values quantiles)[j]? = some m)
    (h : Before values i j) : l ≤ m := by
  have hi := (List.getElem?_eq_some_iff.mp hl).1
  have hj := (List.getElem?_eq_some_iff.mp hm).1
  rw [length_assign] at hi hj
  obtain ⟨a, -, ha⟩ := exists_place hi
  obtain ⟨b, -, hb⟩ := exists_place hj
  rw [getElem?_assign ha, Option.some.injEq] at hl
  rw [getElem?_assign hb, Option.some.injEq] at hm
  rw [← hl, ← hm]
  -- otherwise the sorted order would have the two the other way around
  have hab : a ≤ b := by
    by_contra hba
    obtain ⟨hlt, rfl⟩ := List.getElem?_eq_some_iff.mp ha
    obtain ⟨hlt', rfl⟩ := List.getElem?_eq_some_iff.mp hb
    have hback := List.pairwise_iff_getElem.mp (pairwise_order values) b a hlt' hlt (not_le.mp hba)
    unfold Before at h hback
    omega
  exact Nat.div_le_div_right (Nat.mul_le_mul_right _ hab)

end Order

/-! ## The sizes of the layers -/

section Sizes

variable {n q k : ℕ}

/-- The places that a layer takes up. -/
theorem mul_div_eq_iff {r : ℕ} (hn : 0 < n) (hq : 0 < q) :
    r * q / n = k ↔ k * n ⌈/⌉ q ≤ r ∧ r < (k + 1) * n ⌈/⌉ q := by
  rw [ceilDiv_le_iff_le_mul hq, ← not_le, ceilDiv_le_iff_le_mul hq, not_le, Nat.mul_comm q r,
    ← Nat.le_div_iff_mul_le hn, ← Nat.div_lt_iff_lt_mul hn]
  omega

theorem ceilDiv_mono {a b : ℕ} (hq : 0 < q) (h : a ≤ b) : a ⌈/⌉ q ≤ b ⌈/⌉ q :=
  (gc_mul_ceilDiv hq).monotone_l h

/-- A quotient rounded up is less than one above the quotient. -/
theorem mul_ceilDiv_near (hq : 0 < q) (a : ℕ) : a ≤ q * (a ⌈/⌉ q) ∧ q * (a ⌈/⌉ q) < a + q := by
  refine ⟨(ceilDiv_le_iff_le_mul hq).mp le_rfl, ?_⟩
  rw [Nat.ceilDiv_eq_add_pred_div]
  have hle := Nat.mul_div_le (a + q - 1) q
  omega

/-- Of the first `n` places, those from `a` up to `b` are `b - a`. -/
theorem countP_range_between {a b : ℕ} (hb : b ≤ n) :
    (List.range n).countP (fun r => decide (a ≤ r ∧ r < b)) = b - a := by
  rw [← Nat.count, Nat.count_eq_card_filter_range, ← Nat.card_Ico]
  congr 1
  ext r
  rw [Finset.mem_filter, Finset.mem_range, Finset.mem_Ico]
  omega

end Sizes

/-- The layers, in the order of the values. -/
theorem assign_perm {α : Type} [Number α] (values : List α) (quantiles : ℕ) :
    (assign values quantiles).Perm
      ((List.range values.length).map fun rank => rank * quantiles / values.length) := by
  have hperm := (byPosition_perm values quantiles).map Prod.snd
  have hranks : (order values).zipIdx.map Prod.snd = List.range values.length := by
    rw [List.zipIdx_map_snd, ← List.range_eq_range', (order_perm values).length_eq,
      List.length_range]
  rw [← assign_eq_map, placed, List.map_map] at hperm
  rwa [← hranks, List.map_map]

/-- A layer has as many values as places. -/
theorem count_assign_add (values : List Float) {quantiles k : ℕ} (hk : k < quantiles) :
    (assign values quantiles).count k + k * values.length ⌈/⌉ quantiles =
      (k + 1) * values.length ⌈/⌉ quantiles := by
  have hq : 0 < quantiles := Nat.zero_lt_of_lt hk
  have hend : (k + 1) * values.length ⌈/⌉ quantiles ≤ values.length :=
    (ceilDiv_le_iff_le_mul hq).mpr (Nat.mul_le_mul_right _ hk)
  -- a permutation has as many values in a layer as there are places that map to it
  have hcount : (assign values quantiles).count k =
      (k + 1) * values.length ⌈/⌉ quantiles - k * values.length ⌈/⌉ quantiles := by
    rw [(assign_perm values quantiles).count_eq, List.count_eq_countP, List.countP_map,
      ← countP_range_between hend]
    refine List.countP_congr ?_
    intro rank hrank
    have hn : 0 < values.length := Nat.zero_lt_of_lt (List.mem_range.mp hrank)
    rw [Function.comp_apply, beq_iff_eq, decide_eq_true_iff, mul_div_eq_iff hn hq]
  have hle : k * values.length ⌈/⌉ quantiles ≤ (k + 1) * values.length ⌈/⌉ quantiles :=
    ceilDiv_mono hq (Nat.mul_le_mul_right _ (Nat.le_succ k))
  omega

/-- The size of a layer is less than one value away from an equal share. -/
theorem count_assign_near (values : List Float) {quantiles k : ℕ} (hk : k < quantiles) :
    quantiles * (assign values quantiles).count k < values.length + quantiles ∧
      values.length < quantiles * (assign values quantiles).count k + quantiles := by
  have hq : 0 < quantiles := Nat.zero_lt_of_lt hk
  have hcount := congrArg (quantiles * ·) (count_assign_add values hk)
  simp only [Nat.mul_add] at hcount
  have hlower := mul_ceilDiv_near hq (k * values.length)
  have hupper := mul_ceilDiv_near hq ((k + 1) * values.length)
  have hsucc := Nat.add_one_mul k values.length
  omega

/-- With as many values as layers, no layer is empty. -/
theorem count_assign_pos (values : List Float) {quantiles k : ℕ} (hn : quantiles ≤ values.length)
    (hk : k < quantiles) : 0 < (assign values quantiles).count k := by
  have hlower := (count_assign_near values hk).2
  exact Nat.pos_of_mul_pos_left (a := quantiles) (by omega)

/-- What layers of equal frequency are. -/
structure EqualFrequency (values : List Float) (quantiles : ℕ) (layers : List ℕ) : Prop where
  /-- Each value is in a layer. -/
  length : layers.length = values.length
  lt : ∀ l ∈ layers, l < quantiles
  /-- Of two values, the one below the other in the total order is not in the higher layer. -/
  ordered : ∀ (i j : ℕ) (v w : Float) (l m : ℕ), values[i]? = some v → values[j]? = some w →
    layers[i]? = some l → layers[j]? = some m → totalOrderKey v < totalOrderKey w → l ≤ m
  /-- Nor is the earlier of two values that are the same. -/
  timed : ∀ (i j : ℕ) (v : Float) (l m : ℕ), values[i]? = some v → values[j]? = some v →
    layers[i]? = some l → layers[j]? = some m → i < j → l ≤ m
  /-- The sizes are the differences of the cuts. -/
  count : ∀ k < quantiles, layers.count k + k * values.length ⌈/⌉ quantiles =
    (k + 1) * values.length ⌈/⌉ quantiles
  /-- They differ by one at most. -/
  balanced : ∀ k < quantiles, ∀ l < quantiles, layers.count k ≤ layers.count l + 1
  sum : ((List.range quantiles).map fun k => layers.count k).sum = values.length
  occupied : quantiles ≤ values.length → ∀ k < quantiles, 0 < layers.count k

/-- **Equal frequency.** However many values there are and however many layers they are cut into,
the layers follow the total order of the values, with time between equal ones, and layer `k` has
exactly the values at the places from `⌈k n / q⌉` up to `⌈(k + 1) n / q⌉`.

The layer of the value at place `r` is `r * q / n`, rounded down, and `r` is below a cut exactly if
this is below the number of the cut. All that is said about sizes is counted from that. -/
theorem equalFrequency_assign (values : List Float) {quantiles : ℕ} (hq : 0 < quantiles) :
    EqualFrequency values quantiles (assign values quantiles) := by
  have hkey : ∀ {i v}, values[i]? = some v → key values i = totalOrderKey v := by
    intro i v hi
    rw [key, List.getD_eq_getElem?_getD, hi, Option.getD_some]
  have hlt : ∀ l ∈ assign values quantiles, l < quantiles := fun l => lt_of_mem_assign hq
  refine ⟨length_assign values quantiles, hlt, ?_, ?_, fun k => count_assign_add values, ?_, ?_,
    fun hn k => count_assign_pos values hn⟩
  · intro i j v w l m hi hj hl hm hvw
    refine layer_le_of_before hl hm (Or.inl ?_)
    rwa [hkey hi, hkey hj]
  · intro i j v l m hi hj hl hm hij
    refine layer_le_of_before hl hm (Or.inr ⟨?_, hij⟩)
    rw [hkey hi, hkey hj]
  · -- the counts of two layers are both near `n / q`, so they differ by one at most
    intro k hk l hl
    have hupper := (count_assign_near values hk).1
    have hlower := (count_assign_near values hl).2
    refine Nat.le_of_lt_succ (lt_of_mul_lt_mul_left (a := quantiles) ?_ hq.le)
    simp only [Nat.mul_succ]
    omega
  · rw [sum_count_range hlt, length_assign]

theorem equalFrequency_assign_seven : 0 < 3 ∧
    EqualFrequency [0.3, 0.1, 0.2, 0.1, 0.5, 0.4, 0.1] 3
      (assign [0.3, 0.1, 0.2, 0.1, 0.5, 0.4, 0.1] 3) :=
  ⟨by decide, equalFrequency_assign _ (by decide)⟩

end Layers

end FactorStudy
