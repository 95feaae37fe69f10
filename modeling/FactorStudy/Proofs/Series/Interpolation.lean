import FactorStudy.Proofs.Double.TotalOrder
import FactorStudy.Proofs.Series.Moments

/-!
# Percentiles between entries

Without rounding, a percentile is the value at a position on the line through the entries of an
ascending list (`percentile?_real`). A line that ascends from entry to entry ascends throughout
(`onLine_mono`): two positions are either between the same two entries, or there is an entry between
them. Everything else about percentiles is about the ends of the line and the entries on it.

The median is the percentile in the middle, taken of the sorted window, and windows with the same
values are sorted alike.
-/

namespace FactorStudy.Interpolation

open Number Unrounded Series

/-! ## Positions -/

/-- The position of the fraction `q` among `size` values. -/
noncomputable def position (size : ℕ) (q : ℝ) : ℝ := max 0 (min 1 q) * (size - 1 : ℕ)

section Position

variable (size : ℕ) (q : ℝ)

theorem percentilePosition_real : percentilePosition size (real q) = real (position size q) := by
  rw [percentilePosition, zero_eq, one_eq, clamp_real _ zero_le_one]
  rfl

theorem position_nonneg : 0 ≤ position size q :=
  mul_nonneg (le_max_left _ _) (Nat.cast_nonneg _)

theorem position_le : position size q ≤ (size - 1 : ℕ) :=
  mul_le_of_le_one_left (Nat.cast_nonneg _) (max_le zero_le_one (min_le_left _ _))

theorem position_mono : Monotone (position size) := fun _ _ h =>
  mul_le_mul_of_nonneg_right (max_le_max_left _ (min_le_min_left _ h)) (Nat.cast_nonneg _)

variable {q}

theorem position_of_nonpos (hq : q ≤ 0) : position size q = (0 : ℕ) := by
  rw [position, max_eq_left ((min_le_right _ _).trans hq), zero_mul, Nat.cast_zero]

theorem position_of_one_le (hq : 1 ≤ q) : position size q = (size - 1 : ℕ) := by
  rw [position, min_eq_left hq, max_eq_right zero_le_one, one_mul]

theorem position_half : position size (1 / 2) = (size - 1 : ℕ) / 2 := by
  rw [position, min_eq_right (by norm_num), max_eq_right (by norm_num), one_div_mul_eq_div]

/-- The middle of an odd number of places is a place. -/
theorem position_half_odd (m : ℕ) : position (2 * m + 1) (1 / 2) = m := by
  rw [position_half, Nat.add_sub_cancel, Nat.cast_mul, Nat.cast_ofNat,
    mul_div_cancel_left₀ _ two_ne_zero]

/-- The middle of an even number is halfway between two. -/
theorem position_half_even (m : ℕ) : position (2 * m + 2) (1 / 2) = m + 1 / 2 := by
  rw [position_half, show 2 * m + 2 - 1 = 2 * m + 1 by omega, Nat.cast_add, Nat.cast_mul,
    Nat.cast_ofNat, Nat.cast_one, add_div, mul_div_cancel_left₀ _ two_ne_zero]

end Position

/-- The place of the last entry up to a position, as the program computes it. -/
noncomputable def lower (size : ℕ) (q : ℝ) : ℕ := floorNat (percentilePosition size (real q))

/-- The place of the first entry from a position on. -/
noncomputable def upper (size : ℕ) (q : ℝ) : ℕ := ceilNat (percentilePosition size (real q))

section Places

variable {size : ℕ} (hshort : size ≤ maxCount) (q : ℝ)

include hshort

theorem lower_eq : lower size q = ⌊position size q⌋₊ := by
  have hle : ⌊position size q⌋₊ ≤ size - 1 := Nat.floor_le_of_le (position_le size q)
  rw [lower, percentilePosition_real]
  exact min_eq_left (hle.trans (by omega))

theorem upper_eq : upper size q = ⌈position size q⌉₊ := by
  have hle : ⌈position size q⌉₊ ≤ size - 1 := Nat.ceil_le.mpr (position_le size q)
  rw [upper, percentilePosition_real]
  exact min_eq_left (hle.trans (by omega))

end Places

/-! ## The line through the entries -/

/-- The value at a position: an entry, or a value between two entries that divides the step from the
one to the other as the position divides the way. -/
noncomputable def onLine (sorted : List ℝ) (t : ℝ) : ℝ :=
  sorted.getD ⌊t⌋₊ 0 + (sorted.getD ⌈t⌉₊ 0 - sorted.getD ⌊t⌋₊ 0) * (t - ⌊t⌋₊)

variable {sorted : List ℝ}

theorem onLine_natCast (k : ℕ) : onLine sorted k = sorted.getD k 0 := by
  rw [onLine, Nat.floor_natCast, Nat.ceil_natCast, sub_self, zero_mul, add_zero]

/-- Halfway between two entries the value is their average. -/
theorem onLine_add_half (k : ℕ) :
    onLine sorted (k + 1 / 2) = (sorted.getD k 0 + sorted.getD (k + 1) 0) / 2 := by
  have hfloor : ⌊(k : ℝ) + 1 / 2⌋₊ = k := by
    rw [Nat.floor_eq_iff (by positivity)]
    exact ⟨by linarith, by linarith⟩
  have hceil : ⌈(k : ℝ) + 1 / 2⌉₊ = k + 1 := by
    rw [Nat.ceil_eq_iff (Nat.succ_ne_zero k), Nat.succ_sub_one, Nat.cast_succ]
    exact ⟨by linarith, by linarith⟩
  rw [onLine, hfloor, hceil]
  ring

section Ascending

variable (hsorted : sorted.Pairwise (· ≤ ·))

include hsorted

theorem getD_le_getD {i j : ℕ} (hij : i ≤ j) (hj : j < sorted.length) :
    sorted.getD i 0 ≤ sorted.getD j 0 := by
  rw [List.getD_eq_getElem _ _ hj, List.getD_eq_getElem _ _ (hij.trans_lt hj)]
  rcases hij.eq_or_lt with rfl | hlt
  · exact le_rfl
  · exact List.pairwise_iff_getElem.mp hsorted i j _ hj hlt

variable {t : ℝ} (ht : 0 ≤ t) (hlast : ⌈t⌉₊ < sorted.length)

include ht hlast

/-- The value at a position is not outside the entries next to it. -/
theorem onLine_mem :
    sorted.getD ⌊t⌋₊ 0 ≤ onLine sorted t ∧ onLine sorted t ≤ sorted.getD ⌈t⌉₊ 0 := by
  have hstep := sub_nonneg.mpr (getD_le_getD hsorted (Nat.floor_le_ceil t) hlast)
  have hshare : 0 ≤ t - ⌊t⌋₊ := sub_nonneg.mpr (Nat.floor_le ht)
  have hless : t - ⌊t⌋₊ ≤ 1 := by
    have hlt := Nat.lt_floor_add_one t
    linarith
  rw [onLine]
  constructor
  · exact le_add_of_nonneg_right (mul_nonneg hstep hshare)
  · have hpart := mul_le_of_le_one_right hstep hless
    linarith

/-- **The line ascends.** -/
theorem onLine_mono {s : ℝ} (hs : 0 ≤ s) (hst : s ≤ t) : onLine sorted s ≤ onLine sorted t := by
  have hfloor := Nat.floor_mono hst
  have hceil := Nat.ceil_mono hst
  rcases Nat.lt_or_ge ⌊t⌋₊ ⌈s⌉₊ with hlt | hle
  · -- no entry lies between the two positions, so they are between the same two entries
    have hnext := Nat.ceil_le_floor_add_one s
    have hnext' := Nat.ceil_le_floor_add_one t
    have hsame : ⌊s⌋₊ = ⌊t⌋₊ := by omega
    have hsame' : ⌈s⌉₊ = ⌈t⌉₊ := by omega
    have hstep := sub_nonneg.mpr (getD_le_getD hsorted (Nat.floor_le_ceil t) hlast)
    rw [onLine, onLine, hsame, hsame']
    exact add_le_add_right (mul_le_mul_of_nonneg_left (sub_le_sub_right hst _) hstep) _
  · calc onLine sorted s ≤ sorted.getD ⌈s⌉₊ 0 := (onLine_mem hsorted hs (hceil.trans_lt hlast)).2
      _ ≤ sorted.getD ⌊t⌋₊ 0 := getD_le_getD hsorted hle ((Nat.floor_le_ceil t).trans_lt hlast)
      _ ≤ onLine sorted t := (onLine_mem hsorted ht hlast).1

end Ascending

/-! ## Percentiles -/

theorem getD_map_real {k : ℕ} (hk : k < sorted.length) :
    (sorted.map real).getD k nan = real (sorted.getD k 0) := by
  rw [List.getD_eq_getElem _ _ hk, List.getD_eq_getElem _ _ (by rwa [List.length_map]),
    List.getElem_map]

section Percentile

variable (hne : sorted ≠ []) (hshort : sorted.length ≤ maxCount) (q : ℝ)

include hne

theorem ceil_position_lt : ⌈position sorted.length q⌉₊ < sorted.length := by
  have hpos := List.length_pos_of_ne_nil hne
  have hle : ⌈position sorted.length q⌉₊ ≤ sorted.length - 1 := Nat.ceil_le.mpr (position_le _ q)
  omega

include hshort

/-- **A percentile is a value on the line.** -/
theorem percentile?_real : percentile? (sorted.map real) (real q) =
    some (real (onLine sorted (position sorted.length q))) := by
  have hlookup : percentile? (sorted.map real) (real q) =
      some ((sorted.map real).getD (lower sorted.length q) nan +
        ((sorted.map real).getD (upper sorted.length q) nan -
          (sorted.map real).getD (lower sorted.length q) nan) *
        (percentilePosition sorted.length (real q) - real (lower sorted.length q))) := by
    rw [percentile?, if_neg (by rwa [List.isEmpty_iff, List.map_eq_nil_iff]), List.length_map]
    rfl
  have hupper := ceil_position_lt hne q
  rw [hlookup, lower_eq hshort, upper_eq hshort, getD_map_real hupper,
    getD_map_real ((Nat.floor_le_ceil _).trans_lt hupper), percentilePosition_real, real_sub,
    real_sub, real_mul, real_add, onLine]

end Percentile

/-! ## The ends of the line -/

theorem getElem?_eq_getD {k : ℕ} (hk : k < sorted.length) :
    sorted[k]? = some (sorted.getD k 0) := by
  rw [List.getD_eq_getElem _ _ hk, List.getElem?_eq_getElem hk]

theorem getD_mem {k : ℕ} (hk : k < sorted.length) : sorted.getD k 0 ∈ sorted :=
  List.mem_of_getElem? (getElem?_eq_getD hk)

theorem exists_getD {v : ℝ} (hv : v ∈ sorted) : ∃ k < sorted.length, sorted.getD k 0 = v := by
  obtain ⟨k, hk, rfl⟩ := List.mem_iff_getElem.mp hv
  exact ⟨k, hk, List.getD_eq_getElem _ _ hk⟩

section Ends

variable (hne : sorted ≠ []) (hsorted : sorted.Pairwise (· ≤ ·))

include hne hsorted

theorem isLeast_first : IsLeast {v | v ∈ sorted} (sorted.getD 0 0) := by
  refine ⟨getD_mem (List.length_pos_of_ne_nil hne), fun v hv => ?_⟩
  obtain ⟨k, hk, rfl⟩ := exists_getD hv
  exact getD_le_getD hsorted (Nat.zero_le k) hk

theorem isGreatest_last : IsGreatest {v | v ∈ sorted} (sorted.getD (sorted.length - 1) 0) := by
  have hpos := List.length_pos_of_ne_nil hne
  refine ⟨getD_mem (by omega), fun v hv => ?_⟩
  obtain ⟨k, hk, rfl⟩ := exists_getD hv
  exact getD_le_getD hsorted (by omega) (by omega)

end Ends

/-! ## Sorted windows -/

/-- Sorting goes by a linear order. -/
structure SortsLinearly (α : Type) [Number α] : Prop where
  trans : ∀ a b c : α, Number.totalLe a b = true → Number.totalLe b c = true →
    Number.totalLe a c = true
  total : ∀ a b : α, (Number.totalLe a b || Number.totalLe b a) = true
  antisymm : ∀ a b : α, Number.totalLe a b = true → Number.totalLe b a = true → a = b

theorem sortsLinearly_double : SortsLinearly Float where
  trans := totalLe_trans
  total := totalLe_total
  antisymm _ _ hab hba :=
    totalOrderKey_inj (le_antisymm (of_decide_eq_true hab) (of_decide_eq_true hba))

theorem sortsLinearly_unrounded : SortsLinearly Unrounded where
  trans := Unrounded.totalLe_trans
  total := Unrounded.totalLe_total
  antisymm := Unrounded.totalLe_antisymm

/-- The median of a window does not depend on the order of the values in it. -/
def OrderFree (α : Type) [Number α] : Prop :=
  ∀ (x y : List α) (n i j : ℕ) (w v : List α), trailing? x n i = some w → trailing? y n j = some v →
    i < x.length → j < y.length → w.Perm v →
    (Rolling.median.apply x n)[i]? = (Rolling.median.apply y n)[j]?

namespace SortsLinearly

variable {α : Type} [Number α] (h : SortsLinearly α)

include h

/-- Nothing is left of the order that the values had. -/
theorem ascending_of_perm {w v : List α} (hperm : w.Perm v) : ascending w = ascending v := by
  have hsame : (ascending w).Perm (ascending v) :=
    (List.mergeSort_perm w _).trans (hperm.trans (List.mergeSort_perm v _).symm)
  exact hsame.eq_of_pairwise (fun a b _ _ => h.antisymm a b)
    (List.pairwise_mergeSort h.trans h.total w) (List.pairwise_mergeSort h.trans h.total v)

theorem orderFree : OrderFree α := by
  intro x y n i j w v hw hv hi hj hperm
  have hwindow : onWindow Series.median w = onWindow Series.median v := by
    rw [onWindow, onWindow, hperm.any_eq, Series.median, Series.median, h.ascending_of_perm hperm]
  rw [Rolling.apply, getElem?_rolling _ hw hi, getElem?_rolling _ hv hj]
  exact congrArg some hwindow

end SortsLinearly

theorem ascending_real (hsorted : sorted.Pairwise (· ≤ ·)) {w : List ℝ} (hperm : w.Perm sorted) :
    ascending (w.map real) = sorted.map real := by
  have hascending : (sorted.map real).Pairwise fun a b => Number.totalLe a b = true :=
    List.pairwise_map.mpr (hsorted.imp totalLe_real_iff.mpr)
  rw [sortsLinearly_unrounded.ascending_of_perm (hperm.map real)]
  exact List.mergeSort_of_pairwise hascending

theorem median_real (hne : sorted ≠ []) (hsorted : sorted.Pairwise (· ≤ ·))
    (hshort : sorted.length ≤ maxCount) {w : List ℝ} (hperm : w.Perm sorted) :
    Series.median (w.map real) = real (onLine sorted (position sorted.length (1 / 2))) := by
  have hhalf : (0.5 : Unrounded) = real (1 / 2) := by
    show real _ = real _
    norm_num
  rw [Series.median, ascending_real hsorted hperm, hhalf, percentile?_real hne hshort,
    Option.getD_some]

/-! ## All together -/

/-- The percentiles of an ascending list, as a function of the fraction. -/
structure Interpolates (sorted : List ℝ) (p : ℝ → ℝ) : Prop where
  percentile : ∀ q, percentile? (sorted.map real) (real q) = some (real (p q))
  /-- The entries that are looked up are in the list. They are neighbours, or the same one. -/
  places : ∀ q, lower sorted.length q ≤ upper sorted.length q ∧
    upper sorted.length q ≤ lower sorted.length q + 1 ∧ upper sorted.length q < sorted.length
  /-- The percentile is not outside them. -/
  between : ∀ q, ∃ a b, sorted[lower sorted.length q]? = some a ∧
    sorted[upper sorted.length q]? = some b ∧ a ≤ p q ∧ p q ≤ b
  monotone : Monotone p
  least : ∀ q ≤ 0, IsLeast {v | v ∈ sorted} (p q)
  greatest : ∀ q ≥ 1, IsGreatest {v | v ∈ sorted} (p q)
  /-- In the middle stands an entry, or the average of two. -/
  odd : ∀ m, sorted.length = 2 * m + 1 → sorted[m]? = some (p (1 / 2))
  even : ∀ m, sorted.length = 2 * m + 2 → ∃ a b, sorted[m]? = some a ∧ sorted[m + 1]? = some b ∧
    p (1 / 2) = (a + b) / 2
  /-- It is the median of every window with these values, whatever their order. -/
  median : ∀ (x : List Unrounded) (n i : ℕ) (w : List ℝ), trailing? x n i = some (w.map real) →
    i < x.length → w.Perm sorted → (Rolling.median.apply x n)[i]? = some (real (p (1 / 2)))

theorem interpolates_onLine (hne : sorted ≠ []) (hsorted : sorted.Pairwise (· ≤ ·))
    (hshort : sorted.length ≤ maxCount) :
    Interpolates sorted fun q => onLine sorted (position sorted.length q) where
  percentile := percentile?_real hne hshort
  places := by
    intro q
    rw [lower_eq hshort, upper_eq hshort]
    exact ⟨Nat.floor_le_ceil _, Nat.ceil_le_floor_add_one _, ceil_position_lt hne q⟩
  between := by
    intro q
    have hupper := ceil_position_lt hne q
    rw [lower_eq hshort, upper_eq hshort]
    exact ⟨_, _, getElem?_eq_getD ((Nat.floor_le_ceil _).trans_lt hupper), getElem?_eq_getD hupper,
      onLine_mem hsorted (position_nonneg _ q) hupper⟩
  monotone := fun p q hpq => onLine_mono hsorted (position_nonneg _ q) (ceil_position_lt hne q)
    (position_nonneg _ p) (position_mono _ hpq)
  -- the fractions 0 and 1, and a half of either parity, fall on entries or between two
  least := by
    intro q hq
    rw [position_of_nonpos _ hq, onLine_natCast]
    exact isLeast_first hne hsorted
  greatest := by
    intro q hq
    rw [position_of_one_le _ hq, onLine_natCast]
    exact isGreatest_last hne hsorted
  odd := by
    intro m hm
    rw [hm, position_half_odd, onLine_natCast]
    exact getElem?_eq_getD (by omega)
  even := by
    intro m hm
    rw [hm, position_half_even, onLine_add_half]
    exact ⟨_, _, getElem?_eq_getD (by omega), getElem?_eq_getD (by omega), rfl⟩
  median := by
    intro x n i w hw hi hperm
    rw [Rolling.apply, getElem?_rolling _ hw hi]
    exact congrArg some (Moments.onWindow_real (median_real hne hsorted hshort hperm))

/-- **Percentiles.** Without rounding, the percentiles of an ascending list never fall on their way
from the least value to the greatest. Each lies between the entries that it is computed from, and
the one in the middle is the median of every window with these values. The number of values is a
count of the program, so it is no more than the greatest one. With rounding or without, a median
does not depend on the order of the values in its window. -/
theorem percentiles : (∀ sorted : List ℝ, sorted ≠ [] → sorted.Pairwise (· ≤ ·) →
      sorted.length ≤ maxCount → ∃ p, Interpolates sorted p) ∧
    OrderFree Unrounded ∧ OrderFree Float :=
  ⟨fun _ hne hsorted hshort => ⟨_, interpolates_onLine hne hsorted hshort⟩,
    sortsLinearly_unrounded.orderFree, sortsLinearly_double.orderFree⟩

/-- Four values, and a window in which they stand in another order. -/
theorem percentiles_fourValues : [(1 : ℝ), 2, 4, 8].Pairwise (· ≤ ·) ∧ 4 ≤ maxCount ∧
    ∃ p, Interpolates [1, 2, 4, 8] p ∧ p (1 / 2) = 3 ∧
      (Rolling.median.apply ([8, 1, 4, 2].map real) 4)[3]? = some (real 3) := by
  have hsorted : [(1 : ℝ), 2, 4, 8].Pairwise (· ≤ ·) := by norm_num
  have hshort : [(1 : ℝ), 2, 4, 8].length ≤ maxCount := by decide
  obtain ⟨p, hp⟩ := percentiles.1 [1, 2, 4, 8] (List.cons_ne_nil _ _) hsorted hshort
  obtain ⟨a, b, ha, hb, hmiddle⟩ := hp.even 1 rfl
  obtain rfl := Option.some.inj ha
  obtain rfl := Option.some.inj hb
  have hthree : p (1 / 2) = 3 := hmiddle.trans (by norm_num)
  refine ⟨hsorted, hshort, p, hp, hthree, ?_⟩
  have hcounts : [8, 1, 4, 2].Perm [1, 2, 4, 8] := by decide
  have hperm : [(8 : ℝ), 1, 4, 2].Perm [1, 2, 4, 8] := by
    simpa using hcounts.map (Nat.cast : ℕ → ℝ)
  have hmedian := hp.median ([8, 1, 4, 2].map real) 4 3 [8, 1, 4, 2] rfl (by decide) hperm
  rwa [hthree] at hmedian

end FactorStudy.Interpolation
