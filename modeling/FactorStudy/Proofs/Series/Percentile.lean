import FactorStudy.Proofs.Double.Neighbours
import FactorStudy.Series.Basic

/-!
# Percentiles of doubles

A percentile is interpolated between the entries next to its position. In exact arithmetic it lies
between them and grows with the fraction. Rounded, both hold as well, because no share of the step
from the one entry to the other leads past the other (`RoundsTo.share_le`), with one exception: if
the step is too large for a double, the percentile is infinite (`percentile?_overflow`).

So a larger fraction can have the smaller percentile, exactly if the step at the smaller fraction is
too large and the one at the larger fraction is not (`percentile_le_iff`).
-/

namespace FactorStudy

open Number Double

namespace Double

/-! ## Interpolation -/

theorem infinity_mul {f : Float} (hf : isFinite f = true) (hpos : 0 < value f) :
    (infinity : Float) * f = infinity := by
  have hmul : infinity * f = Float.ofModel (.pack (Float.Model.UnpackedFloat.mul
      Float.Model.Format.binary64 (infinity : Float).toModel.unpack f.toModel.unpack)) := rfl
  rcases finite_cases hf with ⟨s, -, hvalue⟩ | ⟨s, d, hd, hu, hvalue⟩
  · linarith
  · have hdpos := hd.value_pos
    cases s
    · rw [hvalue, signed] at hpos
      linarith
    · rw [hmul, hu]
      rfl

theorem add_infinity {x : Float} (hx : isFinite x = true) : x + (infinity : Float) = infinity := by
  have hadd : x + infinity = Float.ofModel (.pack (Float.Model.UnpackedFloat.add
      Float.Model.Format.binary64 x.toModel.unpack (infinity : Float).toModel.unpack)) := rfl
  rcases finite_cases hx with ⟨s, hu, -⟩ | ⟨s, d, hd, hu, -⟩
  · rw [hadd, hu]
    rfl
  · rw [hadd, hu]
    rfl

/-- Defined values that are not negative are finite or the infinity. -/
theorem eq_infinity {x : Float} (hdef : isNaN x = false) (hpos : 0 ≤ value x)
    (h : isFinite x = false) : x = infinity := by
  refine Nonneg.eq_infinity ⟨hdef, ?_⟩ h
  rw [lt_iff_value hdef rfl, value_zero]
  exact not_lt.mpr hpos

theorem value_infinity : value infinity = limit := value_of_unpack_infinity unpack_infinity

theorem value_lt_infinity {x : Float} (hx : isFinite x = true) : value x < value infinity := by
  rw [value_infinity]
  exact lt_of_abs_lt ((isFinite_iff_value (isNaN_of_isFinite hx)).mp hx)

theorem value_le_infinity {x : Float} (hx : isNaN x = false) : value x ≤ value infinity := by
  have hlimit := limit_pos
  by_cases hpos : 0 ≤ value x
  · cases h : isFinite x with
    | true => exact (value_lt_infinity h).le
    | false => rw [eq_infinity hx hpos h]
  · rw [value_infinity]
    linarith

section Interpolate

variable {x y f : Float} (hx : isFinite x = true) (hy : isFinite y = true) (hxy : value x ≤ value y)

include hx hy hxy

/-- The step from a double up to another one is not negative. -/
theorem step_nonneg : 0 ≤ value (y - x) :=
  (roundsTo_sub hy hx).nonneg (sub_nonneg.mpr hxy)

/-- If it is too large for a double, it is infinite. -/
theorem step_eq_infinity (h : isFinite (y - x) = false) : y - x = infinity :=
  eq_infinity (roundsTo_sub hy hx).1 (step_nonneg hx hy hxy) h

variable (hf : isFinite f = true) (hpos : 0 ≤ value f) (hlt : value f < 1)
  (hstep : isFinite (y - x) = true)

include hf hpos hlt hstep

/-- A share of the step is not longer than the way to the other double. -/
theorem share_mem : isFinite ((y - x) * f) = true ∧ 0 ≤ value ((y - x) * f) ∧
    value ((y - x) * f) ≤ value y - value x := by
  have hdiff := roundsTo_sub hy hx
  have hshare := roundsTo_mul hstep hf
  have hdpos := step_nonneg hx hy hxy
  have hshare₀ : 0 ≤ value (y - x) * value f := mul_nonneg hdpos hpos
  refine ⟨hshare.finite hstep (by linarith) (by nlinarith), hshare.nonneg hshare₀, ?_⟩
  -- the step is a whole number of the smallest units
  obtain ⟨i, hi⟩ := exists_units hx
  obtain ⟨j, hj⟩ := exists_units hy
  have hij : i ≤ j := by
    rw [hi, hj] at hxy
    exact Int.cast_le.mp (le_of_mul_le_mul_right hxy (by positivity))
  obtain ⟨n, rfl⟩ : ∃ n : ℕ, j = i + n := ⟨(j - i).toNat, by omega⟩
  refine hdiff.share_le hstep (n := n) ?_ hf hlt hshare
  rw [hi, hj, Int.cast_add, Int.cast_natCast, add_mul, add_sub_cancel_left]

/-- **Interpolation stays between the two values**, rounding included. -/
theorem interpolate_mem : isFinite (x + (y - x) * f) = true ∧ value x ≤ value (x + (y - x) * f) ∧
    value (x + (y - x) * f) ≤ value y := by
  obtain ⟨hshare, hlower, hupper⟩ := share_mem hx hy hxy hf hpos hlt hstep
  have hsum := roundsTo_add hx hshare
  have hge := hsum.le_value (isNaN_of_isFinite hx) (by linarith)
  have hle := hsum.value_le (isNaN_of_isFinite hy) (by linarith)
  exact ⟨isFinite_of_between hx hy hsum.1 hge hle, hge, hle⟩

/-- A larger share leads further. -/
theorem interpolate_mono {g : Float} (hg : isFinite g = true) (hgt : value g < 1)
    (hfg : value f ≤ value g) : value (x + (y - x) * f) ≤ value (x + (y - x) * g) := by
  have hmul := (roundsTo_mul hstep hf).mono (roundsTo_mul hstep hg)
    (mul_le_mul_of_nonneg_left hfg (step_nonneg hx hy hxy))
  have hshare := (share_mem hx hy hxy hf hpos hlt hstep).1
  have hshare' := (share_mem hx hy hxy hg (hpos.trans hfg) hgt hstep).1
  exact (roundsTo_add hx hshare).mono (roundsTo_add hx hshare') (by linarith)

end Interpolate

end Double

namespace Series

/-! ## The entries next to a position -/

/-- Finite values in ascending order, of at least one. -/
structure Ascending (sorted : List Float) : Prop where
  finite : ∀ v ∈ sorted, isFinite v = true
  ordered : sorted.Pairwise fun v w => value v ≤ value w
  nonempty : sorted ≠ []
  short : sorted.length < 2 ^ 64

/-- A fraction of less than everything. -/
structure Fraction (q : Float) : Prop where
  finite : isFinite q = true
  nonneg : 0 ≤ value q
  lt_one : value q < 1

/-- The place in the list of the entry at a fraction or before it. -/
def placeBelow (sorted : List Float) (q : Float) : ℕ := floorNat (percentilePosition sorted.length q)

/-- The place of the entry at a fraction or after it. -/
def placeAbove (sorted : List Float) (q : Float) : ℕ := ceilNat (percentilePosition sorted.length q)

def entryBelow (sorted : List Float) (q : Float) : Float := sorted.getD (placeBelow sorted q) nan

def entryAbove (sorted : List Float) (q : Float) : Float := sorted.getD (placeAbove sorted q) nan

/-- The step from the one entry to the other. -/
def step (sorted : List Float) (q : Float) : Float := entryAbove sorted q - entryBelow sorted q

/-- The share of the step that leads to the position. -/
def share (sorted : List Float) (q : Float) : Float :=
  percentilePosition sorted.length q - ofNat (placeBelow sorted q)

theorem percentile?_eq {sorted : List Float} (h : sorted ≠ []) (q : Float) :
    percentile? sorted q = some (entryBelow sorted q + step sorted q * share sorted q) :=
  if_neg (by rwa [List.isEmpty_iff])

section Position

variable {sorted : List Float} {q : Float} (hs : Ascending sorted) (hq : Fraction q)

include hq

theorem clamp_fraction : clamp 0 1 q = q := by
  have hdef := isNaN_of_isFinite hq.finite
  have hlow : ¬ q < 0 := by
    rw [lt_iff_value hdef rfl, value_zero]
    exact not_lt.mpr hq.nonneg
  have hhigh : ¬ 1 < q := by
    rw [lt_iff_value rfl hdef, value_one]
    exact not_lt.mpr hq.lt_one.le
  rw [clamp, if_neg hlow, if_neg hhigh]

include hs

theorem roundsTo_position : RoundsTo (percentilePosition sorted.length q)
    (value (ofNat (sorted.length - 1) : Float) * value q) := by
  have hshort := hs.short
  rw [percentilePosition, clamp_fraction hq, mul_comm]
  exact roundsTo_mul hq.finite (isFinite_ofNat (by omega))

/-- The position is within the list. -/
theorem position_mem : isFinite (percentilePosition sorted.length q) = true ∧
    0 ≤ value (percentilePosition sorted.length q) ∧
    value (percentilePosition sorted.length q) ≤ (sorted.length - 1 : ℕ) := by
  have hshort := hs.short
  have hpos := hq.nonneg
  have hlt := hq.lt_one
  have hcount : sorted.length - 1 < 2 ^ 64 := by omega
  have hround := roundsTo_position hs hq
  have hlast := roundsTo_ofNat (sorted.length - 1)
  have hfinite := isFinite_ofNat hcount
  have hlast₀ := hlast.nonneg (Nat.cast_nonneg _)
  refine ⟨hround.finite hfinite (by nlinarith) (by nlinarith), hround.nonneg (by positivity), ?_⟩
  refine hlast.share_le hfinite (n := (sorted.length - 1) * 2 ^ 1074) ?_ hq.finite hlt hround
  rw [zpow_neg, Nat.cast_mul, Nat.cast_pow, Nat.cast_ofNat]
  exact (mul_inv_cancel_right₀ (by positivity) _).symm

theorem placeBelow_spec : (placeBelow sorted q : ℚ) ≤ value (percentilePosition sorted.length q) ∧
    value (percentilePosition sorted.length q) < placeBelow sorted q + 1 := by
  obtain ⟨hfinite, hpos, hle⟩ := position_mem hs hq
  have hshort := hs.short
  exact floorNat_spec hfinite hpos (by omega) hle

theorem placeAbove_spec : value (percentilePosition sorted.length q) ≤ placeAbove sorted q ∧
    (placeAbove sorted q : ℚ) < value (percentilePosition sorted.length q) + 1 := by
  obtain ⟨hfinite, hpos, hle⟩ := position_mem hs hq
  have hshort := hs.short
  exact ceilNat_spec hfinite hpos (by omega) hle

theorem placeBelow_le_placeAbove : placeBelow sorted q ≤ placeAbove sorted q := by
  have hbelow := (placeBelow_spec hs hq).1
  have habove := (placeAbove_spec hs hq).1
  exact_mod_cast hbelow.trans habove

theorem placeAbove_lt : placeAbove sorted q < sorted.length := by
  have hle := (position_mem hs hq).2.2
  have habove := (placeAbove_spec hs hq).2
  have hlength := List.length_pos_of_ne_nil hs.nonempty
  have hlt : (placeAbove sorted q : ℚ) < (sorted.length - 1 : ℕ) + 1 := by linarith
  have hlt : placeAbove sorted q < sorted.length - 1 + 1 := by exact_mod_cast hlt
  omega

theorem share_spec : isFinite (share sorted q) = true ∧ 0 ≤ value (share sorted q) ∧
    value (share sorted q) < 1 ∧
    value (share sorted q) = value (percentilePosition sorted.length q) - placeBelow sorted q := by
  obtain ⟨hfinite, hpos, hle⟩ := position_mem hs hq
  obtain ⟨hlower, hupper⟩ := placeBelow_spec hs hq
  have hshort := hs.short
  obtain ⟨hshare, hvalue⟩ : isFinite (share sorted q) = true ∧
      value (share sorted q) = value (percentilePosition sorted.length q) - placeBelow sorted q :=
    value_sub_floorNat hfinite hpos (by omega) hle
  exact ⟨hshare, by linarith, by linarith, hvalue⟩

end Position

/-- The entries of an ascending list, by their places. -/
theorem Ascending.getD_le {sorted : List Float} (hs : Ascending sorted) {i j : ℕ} (hij : i ≤ j)
    (hj : j < sorted.length) : value (sorted.getD i nan) ≤ value (sorted.getD j nan) := by
  rw [List.getD_eq_getElem _ _ hj, List.getD_eq_getElem _ _ (Nat.lt_of_le_of_lt hij hj)]
  rcases Nat.eq_or_lt_of_le hij with rfl | hlt
  · exact le_rfl
  · exact List.pairwise_iff_getElem.mp hs.ordered i j _ hj hlt

theorem Ascending.isFinite_getD {sorted : List Float} (hs : Ascending sorted) {i : ℕ}
    (hi : i < sorted.length) : isFinite (sorted.getD i nan) = true := by
  rw [List.getD_eq_getElem _ _ hi]
  exact hs.finite _ (List.getElem_mem hi)

/-! ## Percentiles -/

section Percentile

variable {sorted : List Float} {q : Float} (hs : Ascending sorted) (hq : Fraction q)

include hs hq

theorem isFinite_entryBelow : isFinite (entryBelow sorted q) = true :=
  hs.isFinite_getD (Nat.lt_of_le_of_lt (placeBelow_le_placeAbove hs hq) (placeAbove_lt hs hq))

theorem isFinite_entryAbove : isFinite (entryAbove sorted q) = true :=
  hs.isFinite_getD (placeAbove_lt hs hq)

theorem entryBelow_le_entryAbove : value (entryBelow sorted q) ≤ value (entryAbove sorted q) :=
  hs.getD_le (placeBelow_le_placeAbove hs hq) (placeAbove_lt hs hq)

/-- **A percentile lies between the entries next to it** if the step from the one to the other is
not too large. -/
theorem percentile?_mem (hstep : isFinite (step sorted q) = true) :
    ∃ r, percentile? sorted q = some r ∧ isFinite r = true ∧
      value (entryBelow sorted q) ≤ value r ∧ value r ≤ value (entryAbove sorted q) := by
  obtain ⟨hfinite, hpos, hlt, -⟩ := share_spec hs hq
  exact ⟨_, percentile?_eq hs.nonempty q, interpolate_mem (isFinite_entryBelow hs hq)
    (isFinite_entryAbove hs hq) (entryBelow_le_entryAbove hs hq) hfinite hpos hlt hstep⟩

/-- It is infinite otherwise. -/
theorem percentile?_overflow (hstep : isFinite (step sorted q) = false) :
    percentile? sorted q = some infinity := by
  have hbelow := isFinite_entryBelow hs hq
  have hinfinity : step sorted q = infinity :=
    step_eq_infinity hbelow (isFinite_entryAbove hs hq) (entryBelow_le_entryAbove hs hq) hstep
  -- the position is between two places, or the step would be from an entry to itself
  have hplaces : placeBelow sorted q ≠ placeAbove sorted q := by
    intro heq
    have hsame : entryAbove sorted q = entryBelow sorted q := by rw [entryAbove, ← heq, entryBelow]
    have hzero := roundsTo_sub hbelow hbelow
    rw [sub_self] at hzero
    have hstill := hzero.finite (c := 0) rfl (by rw [value_zero, neg_zero]) value_zero.ge
    rw [step, hsame, hstill] at hstep
    cases hstep
  obtain ⟨hfinite, hpos, -, hvalue⟩ := share_spec hs hq
  have hshare : 0 < value (share sorted q) := by
    have hle := placeBelow_le_placeAbove hs hq
    have habove := (placeAbove_spec hs hq).2
    have hnext : (placeBelow sorted q : ℚ) + 1 ≤ placeAbove sorted q := by
      exact_mod_cast Nat.lt_of_le_of_ne hle hplaces
    linarith
  rw [percentile?_eq hs.nonempty, hinfinity, infinity_mul hfinite hshare, add_infinity hbelow]

/-- A percentile is defined whether it is finite or not. -/
theorem isNaN_percentile? {r : Float} (hr : percentile? sorted q = some r) : isNaN r = false := by
  cases hstep : isFinite (step sorted q) with
  | true =>
    obtain ⟨r', hr', hfinite, -, -⟩ := percentile?_mem hs hq hstep
    rw [hr', Option.some.injEq] at hr
    exact isNaN_of_isFinite (hr ▸ hfinite)
  | false =>
    rw [percentile?_overflow hs hq hstep, Option.some.injEq] at hr
    rw [← hr]
    rfl

end Percentile

section Order

variable {sorted : List Float} {p q a b : Float} (hs : Ascending sorted) (hp : Fraction p)
  (hq : Fraction q) (hpq : value p ≤ value q)

include hs hp hq hpq

theorem position_mono : value (percentilePosition sorted.length p) ≤
    value (percentilePosition sorted.length q) := by
  have hshort := hs.short
  have hlast := (roundsTo_ofNat (sorted.length - 1)).nonneg (Nat.cast_nonneg _)
  exact (roundsTo_position hs hp).mono (roundsTo_position hs hq) (mul_le_mul_of_nonneg_left hpq hlast)

/-- The entries next to the position at a larger fraction are further on or the same. -/
theorem places_cases : placeAbove sorted p ≤ placeBelow sorted q ∨
    (placeBelow sorted q = placeBelow sorted p ∧ placeAbove sorted q = placeAbove sorted p) := by
  obtain ⟨hbelow, hbelow'⟩ := placeBelow_spec hs hp
  obtain ⟨habove, habove'⟩ := placeAbove_spec hs hp
  obtain ⟨hbelowq, hbelowq'⟩ := placeBelow_spec hs hq
  obtain ⟨haboveq, haboveq'⟩ := placeAbove_spec hs hq
  have hpos := position_mono hs hp hq hpq
  rcases Nat.lt_or_ge (placeBelow sorted q) (placeAbove sorted p) with hlt | hle
  · right
    have hlt : (placeBelow sorted q : ℚ) + 1 ≤ placeAbove sorted p := by exact_mod_cast hlt
    have hnear : ∀ {i j : ℕ}, (i : ℚ) < j + 1 → i ≤ j := fun h =>
      Nat.lt_succ_iff.mp (by exact_mod_cast h)
    exact ⟨le_antisymm (hnear (by linarith)) (hnear (by linarith)),
      le_antisymm (hnear (by linarith)) (hnear (by linarith))⟩
  · exact Or.inl hle

/-- Steps that are not too large keep percentiles in the order of their fractions. -/
theorem percentile?_mono (ha : percentile? sorted p = some a) (hb : percentile? sorted q = some b)
    (hstep : isFinite (step sorted p) = true) (hstep' : isFinite (step sorted q) = true) :
    value a ≤ value b := by
  rcases places_cases hs hp hq hpq with hle | ⟨hbelow, habove⟩
  · -- there are entries between the two
    obtain ⟨r, hr, -, -, hupper⟩ := percentile?_mem hs hp hstep
    obtain ⟨r', hr', -, hlower, -⟩ := percentile?_mem hs hq hstep'
    rw [hr, Option.some.injEq] at ha
    rw [hr', Option.some.injEq] at hb
    have hlt := Nat.lt_of_le_of_lt (placeBelow_le_placeAbove hs hq) (placeAbove_lt hs hq)
    rw [← ha, ← hb]
    exact (hupper.trans (hs.getD_le hle hlt)).trans hlower
  · -- they share a step
    have hentryBelow : entryBelow sorted q = entryBelow sorted p := by
      rw [entryBelow, hbelow, entryBelow]
    have hentryAbove : entryAbove sorted q = entryAbove sorted p := by
      rw [entryAbove, habove, entryAbove]
    obtain ⟨hfinite, hpos, hlt, hvalue⟩ := share_spec hs hp
    obtain ⟨hfinite', -, hlt', hvalue'⟩ := share_spec hs hq
    have hshare : value (share sorted p) ≤ value (share sorted q) := by
      have hmono := position_mono hs hp hq hpq
      rw [hvalue, hvalue', hbelow]
      linarith
    rw [percentile?_eq hs.nonempty, Option.some.injEq] at ha hb
    rw [← ha, ← hb, step, step, hentryBelow, hentryAbove]
    exact interpolate_mono (isFinite_entryBelow hs hp) (isFinite_entryAbove hs hp)
      (entryBelow_le_entryAbove hs hp) hfinite hpos hlt hstep hfinite' hlt' hshare

/-- **When percentiles are in the order of their fractions**: always, unless the step at the smaller
fraction alone is too large. -/
theorem percentile?_le_iff (ha : percentile? sorted p = some a)
    (hb : percentile? sorted q = some b) :
    a ≤ b ↔ isFinite (step sorted p) = true ∨ isFinite (step sorted q) = false := by
  have hdef := isNaN_percentile? hs hp ha
  have hdef' := isNaN_percentile? hs hq hb
  rw [le_iff_value hdef hdef']
  -- four cases: a step that overflows makes its percentile an infinity
  cases hstep : isFinite (step sorted p) with
  | true =>
    refine iff_of_true ?_ (Or.inl rfl)
    cases hstep' : isFinite (step sorted q) with
    | true => exact percentile?_mono hs hp hq hpq ha hb hstep hstep'
    | false =>
      rw [percentile?_overflow hs hq hstep', Option.some.injEq] at hb
      rw [← hb]
      exact value_le_infinity hdef
  | false =>
    rw [percentile?_overflow hs hp hstep, Option.some.injEq] at ha
    cases hstep' : isFinite (step sorted q) with
    | true =>
      obtain ⟨r, hr, hfinite, -, -⟩ := percentile?_mem hs hq hstep'
      rw [hr, Option.some.injEq] at hb
      refine iff_of_false ?_ (by decide)
      rw [← ha, ← hb, not_le]
      exact value_lt_infinity hfinite
    | false =>
      rw [percentile?_overflow hs hq hstep', Option.some.injEq] at hb
      exact iff_of_true (by rw [← ha, ← hb]) (Or.inr rfl)

end Order

end Series

end FactorStudy
