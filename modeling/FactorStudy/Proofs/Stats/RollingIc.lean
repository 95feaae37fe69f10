import FactorStudy.Proofs.Backtest.Figures
import FactorStudy.Proofs.Series.Flat
import FactorStudy.Proofs.Series.Winsorize

/-!
# The rolling information coefficient

The information coefficient over trailing windows is computed by code of its own, beside `ts_corr`.
The function of the expression language turns down windows with undefined entries and takes
infinities out of what it computed; the coefficient does neither, and asks for windows of at least
two observations instead.

Both checks are in the correlation already: it divides a sum that is not finite unless every entry of
both windows is (`isFinite_of_pearson?_eq_some`), and what comes out is finite or nothing. So the two
are the same, list for list.
-/

namespace FactorStudy

open Number Double

namespace Series

/-- A correlation lies between -1 and 1. -/
theorem mem_range_of_pearson? {x y : List Float} {r : Float} (h : pearson? x y = some r) :
    -1 ≤ r ∧ r ≤ 1 := by
  obtain ⟨c, hc, rfl⟩ := exists_clamp_of_pearson? h
  exact clamp_mem rfl rfl (isNaN_of_isFinite hc) (by decide +kernel)

/-- Fewer than two pairs do not correlate. -/
theorem pearson?_of_length_lt {x y : List Float} (hx : x.length < 2) : pearson? x y = none := by
  rw [pearson?, if_pos (by omega)]

/-- **What correlates is finite throughout.** -/
theorem isFinite_of_pearson?_eq_some {x y : List Float} (hlen : y.length = x.length) {r : Float}
    (h : pearson? x y = some r) : (∀ v ∈ x, isFinite v = true) ∧ ∀ v ∈ y, isFinite v = true := by
  have hsome : 2 ≤ x.length := by
    by_contra hfew
    rw [pearson?_of_length_lt (by omega)] at h
    cases h
  rw [pearson?_eq hsome hlen] at h
  split at h
  · cases h
  · obtain ⟨c, hc, -⟩ := Option.map_eq_some_iff.mp h
    obtain ⟨hquotient, hfinite⟩ := finite?_eq_some_iff.mp hc
    rw [← hquotient] at hfinite
    -- one pair of deviations is enough, as the means are taken of all values
    have hx : (x.map (· - average x))[0]? = some (x[0] - average x) := by
      rw [List.getElem?_map, List.getElem?_eq_getElem (by omega), Option.map_some]
    have hy : (y.map (· - average y))[0]? = some (y[0] - average y) := by
      rw [List.getElem?_map, List.getElem?_eq_getElem (by omega), Option.map_some]
    obtain ⟨hfirst, hsecond⟩ := isFinite_of_dot (isFinite_of_div hfinite) hx hy
    exact ⟨isFinite_of_average (isFinite_of_sub hfirst).2,
      isFinite_of_average (isFinite_of_sub hsecond).2⟩

/-- A correlation needs no check of its windows. -/
theorem onWindows_correlation {wx wy : List Float} (hlen : wy.length = wx.length) :
    onWindows correlation wx wy = correlation wx wy := by
  cases hr : pearson? wx wy with
  | none =>
    rw [onWindows, correlation, hr]
    split
    · rfl
    · rfl
  | some r =>
    obtain ⟨hx, hy⟩ := isFinite_of_pearson?_eq_some hlen hr
    rw [onWindows, any_isNaN_eq_false hx, any_isNaN_eq_false hy, if_neg (by decide), correlation, hr,
      Option.getD_some, orNaN_eq_self (isFinite_of_pearson? hr)]

end Series

namespace Ic

open Series

/-- How the coefficient over trailing windows stands to `ts_corr`. -/
structure RollingCorrelation (x y : List Float) (w : ℕ) : Prop where
  /-- It is the same list, undefined entries included. -/
  eq_corr : rolling x y w = Pairwise.corr.apply x y w
  /-- Its defined entries lie between -1 and 1. -/
  range : ∀ v ∈ rolling x y w, isNaN v = false → -1 ≤ v ∧ v ≤ 1

/-- **The rolling information coefficient is `ts_corr`**, for all lists of doubles, defined or not,
of any lengths, and for all windows. Where it is defined it is between -1 and 1.

One loop turns down windows of fewer than two bars and the other windows with an undefined entry.
The correlation is undefined in both cases anyhow. -/
theorem rollingCorrelation (x y : List Float) (w : ℕ) : RollingCorrelation x y w := by
  refine ⟨?_, ?_⟩
  · show rolling x y w = rollingPair correlation x y w
    rw [rolling, rollingPair]
    refine List.map_congr_left fun i hi => ?_
    have hi : i < min x.length y.length := List.mem_range.mp hi
    -- the guards differ: one looks at the window's length, the other at its entries
    cases hx : trailing? x w i with
    | none => exact ite_self nan
    | some wx =>
      cases hy : trailing? y w i with
      | none => exact ite_self nan
      | some wy =>
        have hlenx : wx.length = w := length_of_trailing? hx (by omega)
        have hleny : wy.length = w := length_of_trailing? hy (by omega)
        show (if w < 2 then nan else correlation wx wy) = onWindows correlation wx wy
        rw [onWindows_correlation (by omega)]
        split
        · rw [correlation, pearson?_of_length_lt (by omega)]
          rfl
        · rfl
  · -- a correlation that is defined has been clamped
    intro v hv hdef
    obtain ⟨i, -, rfl⟩ := List.mem_map.mp hv
    split at hdef
    · cases hdef
    · rename_i hw
      rw [if_neg hw]
      split at hdef
      · rename_i wx wy hwx hwy
        obtain ⟨r, hr⟩ := Option.isSome_iff_exists.mp (isSome_of_correlation hdef)
        rw [correlation, hr]
        exact mem_range_of_pearson? hr
      · cases hdef

end Ic

end FactorStudy
