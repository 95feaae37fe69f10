import FactorStudy.Proofs.Double.Within
import FactorStudy.Proofs.Series.Flat
import FactorStudy.Proofs.Evaluation.Identities

/-!
# Standard scores of the newest value

The score `ts_zscore(x, n)` is described as `(x - ts_mean(x, n)) / ts_std(x, n)`. The function takes
the infinities out of its result only, the expression takes them out after each of its four calls.
This makes no difference where an infinity is a mean or a deviation, as it stays one up to the
result. A deviation over an infinite spread is a zero, though, and the zero is kept: the window is
overspread (`Overspread`) and has a score of 0 where the expression has none.

The spread overflows through the squares of the deviations, so it takes values above `2 ^ 500`
(`not_overspread_of_moderate`).
-/

namespace FactorStudy

open Number Double

namespace Series

/-! ## Windows -/

/-- A window whose spread has overflowed, though the deviation of its newest value has not. -/
def Overspread (w : List Float) : Prop :=
  isFinite (newest w - average w) = true ∧ std? w = some infinity

/-- A deviation is the same over a spread whether infinities are taken out of the mean or not. -/
theorem orNaN_sub_div (a m s : Float) : orNaN ((a - orNaN m) / s) = orNaN ((a - m) / s) := by
  cases hmean : isFinite m with
  | true => rw [orNaN_eq_self hmean]
  | false =>
    have hnone : ∀ m, isFinite m = false → orNaN ((a - m) / s) = nan :=
      fun m hm => orNaN_eq_nan (isFinite_div_of_not (isFinite_sub_of_not a hm) s)
    rw [orNaN_eq_nan hmean, hnone nan isFinite_nan, hnone m hmean]

/-- What is not negative and not above 0 is a zero. -/
theorem beq_zero_of_not_pos {s : Float} (hs : Nonneg s) (h : ¬ 0 < s) : (s == 0) = true := by
  have hlow := hs.2
  rw [lt_iff_value hs.1 rfl, not_lt] at hlow
  rw [lt_iff_value rfl hs.1, not_lt] at h
  exact (beq_iff_value hs.1 rfl).mpr (le_antisymm h hlow)

/-- So it is with the spread, where the check that it is above 0 takes the place of the division by
0, unless a finite deviation is divided by an infinite spread. -/
theorem orNaN_div_spread {a s : Float} (hs : isNaN s = true ∨ Nonneg s)
    (h : ¬ (isFinite a = true ∧ s = infinity)) :
    orNaN (if 0 < s then a / s else nan) = orNaN (a / orNaN s) := by
  rcases hs with hnan | hs
  · rw [eq_nan_of_isNaN hnan, if_neg (not_lt_nan 0)]
    exact congrArg orNaN (div_nan a).symm
  cases hfinite : isFinite s with
  | true =>
    rw [orNaN_eq_self hfinite]
    split
    · rfl
    · -- a spread of 0: nothing finite is divided by it
      rename_i hpos
      rw [orNaN_eq_nan (isFinite_div_zero a (beq_zero_of_not_pos hs hpos))]
      rfl
  | false =>
    -- an infinite spread: by the condition the deviation is not finite either
    have ha : isFinite a = false := by
      rw [← Bool.not_eq_true]
      exact fun ha => h ⟨ha, hs.eq_infinity hfinite⟩
    rw [orNaN_eq_nan hfinite, div_nan]
    split
    · exact orNaN_eq_nan (isFinite_div_of_not ha s)
    · rfl

/-- A spread is a root. -/
theorem nonneg_of_std? {w : List Float} {s : Float} (h : std? w = some s) :
    isNaN s = true ∨ Nonneg s := by
  obtain ⟨v, -, rfl⟩ := Option.map_eq_some_iff.mp h
  exact (sqrt_cases v).imp_right And.left

/-- **The score of a window** is the quotient of what the expression computes of it, unless the
window is overspread. -/
theorem onWindow_zscore_eq {w : List Float} (h : ¬ Overspread w) :
    onWindow zscoreOfNewest w = strict₂ (· / ·)
      (strict₂ (· - ·) (newest w) (onWindow average w)) (onWindow windowStd w) := by
  rw [strict₂_sub, orNaN_div_eq]
  unfold onWindow
  split
  · -- an undefined entry leaves neither a score nor a spread
    exact (congrArg orNaN (div_nan _)).symm
  · rw [orNaN_sub_div, zscoreOfNewest, windowStd]
    cases hstd : std? w with
    | none => exact (congrArg orNaN (div_nan _)).symm
    | some s =>
      -- what is left is the check of the spread
      refine orNaN_div_spread (nonneg_of_std? hstd) ?_
      rintro ⟨hfinite, rfl⟩
      exact h ⟨hfinite, hstd⟩

/-- An overspread window has a score, and the expression has none. -/
theorem onWindow_zscore_of_overspread {w : List Float} (h : Overspread w) :
    (onWindow zscoreOfNewest w == 0) = true ∧ onWindow windowStd w = nan := by
  obtain ⟨hfinite, hstd⟩ := h
  have hdef := any_isNaN_eq_false (isFinite_of_average (isFinite_of_sub hfinite).2)
  rw [onWindow, onWindow, hdef, if_neg Bool.false_ne_true, if_neg Bool.false_ne_true,
    zscoreOfNewest, windowStd, hstd]
  refine ⟨?_, rfl⟩
  show (orNaN ((newest w - average w) / infinity) == 0) = true
  rcases div_infinite hfinite (y := infinity) rfl rfl with hzero | hzero
  · rw [hzero]
    rfl
  · rw [hzero]
    rfl

section Moderate

variable {w : List Float} (hfinite : ∀ v ∈ w, isFinite v = true)
  (hmoderate : ∀ v ∈ w, |value v| ≤ 2 ^ 500) (hlen : w.length ≤ 2 ^ 17)

include hfinite hmoderate

theorem within_of_moderate : ∀ v ∈ w, Within v ((1 : ℕ) * 2 ^ (500 : ℤ)) := by
  intro v hv
  refine ⟨hfinite v hv, ?_⟩
  rw [Nat.cast_one, one_mul, zpow_ofNat]
  exact hmoderate v hv

include hlen

/-- The mean keeps the bound of the values. -/
theorem within_average (hsome : 0 < w.length) :
    Within (average w) ((1 : ℕ) * 2 ^ (500 : ℤ)) := by
  have hsum := Within.sum (within_of_moderate hfinite hmoderate) ⟨by omega, by decide⟩
  refine hsum.div_ofNat (n := w.length) hsome (by omega) (by decide) ?_
  rw [Nat.mul_one, Nat.cast_one, one_mul]

/-- A deviation has one binary place more, and its square twice as many as the deviation. -/
theorem within_square {v : Float} (hv : v ∈ w) :
    Within ((v - average w) * (v - average w)) ((2 ^ 31 : ℕ) * 2 ^ (971 : ℤ)) := by
  have hmean := within_average hfinite hmoderate hlen (List.length_pos_of_mem hv)
  have hdeviation : Within (v - average w) ((1 : ℕ) * 2 ^ (501 : ℤ)) := by
    refine (within_of_moderate hfinite hmoderate v hv).sub hmean (by decide) ?_
    rw [Nat.cast_one, one_mul, one_mul, ← two_mul, ← zpow_one_add₀ two_ne_zero,
      show (1 : ℤ) + 500 = 501 by decide]
  refine hdeviation.mul hdeviation (by decide) ?_
  rw [Nat.cast_one, one_mul, ← zpow_add₀ two_ne_zero, Nat.cast_pow, ← zpow_natCast,
    Nat.cast_ofNat, ← zpow_add₀ two_ne_zero, show (501 : ℤ) + 501 = (31 : ℕ) + 971 by decide]

/-- So the variance does not overflow. -/
theorem isFinite_variance {s : Float} (hs : variance? w = some s) : isFinite s = true := by
  rw [variance?] at hs
  split at hs
  · cases hs
  · rename_i hsome
    -- squares of moderate values are far below the limit, and so is a sum of so many
    have hsquares : ∀ u ∈ w.map fun v => (v - average w) * (v - average w),
        Within u ((2 ^ 31 : ℕ) * 2 ^ (971 : ℤ)) := by
      intro u hu
      obtain ⟨v, hv, rfl⟩ := List.mem_map.mp hu
      exact within_square hfinite hmoderate hlen hv
    have hshort : IsShort (w.length * 2 ^ 31) 971 := ⟨by omega, by decide⟩
    have hsum := Within.sum hsquares (by rwa [List.length_map])
    rw [List.length_map] at hsum
    have hone : (1 : ℚ) ≤ (w.length - 1 : ℕ) := by
      exact_mod_cast (show 1 ≤ w.length - 1 by omega)
    have hshare := hsum.div_ofNat (n := w.length - 1) (by omega) (by omega) hshort
      (le_mul_of_one_le_left (by positivity) hone)
    exact Option.some.inj hs ▸ hshare.finite

end Moderate

/-- **Values up to `2 ^ 500` are not overspread**, in windows of up to `2 ^ 17` bars. -/
theorem not_overspread_of_moderate {w : List Float} (hw : ∀ v ∈ w, |value v| ≤ 2 ^ 500)
    (hlen : w.length ≤ 2 ^ 17) : ¬ Overspread w := by
  rintro ⟨hfinite, hstd⟩
  have hvalues := isFinite_of_average (isFinite_of_sub hfinite).2
  obtain ⟨s, hvariance, hroot⟩ := Option.map_eq_some_iff.mp hstd
  rcases sqrt_cases s with hnan | ⟨-, hnotover⟩
  · rw [hroot] at hnan
    cases hnan
  · have hrootfinite := hnotover (isFinite_variance hvalues hw hlen hvariance)
    rw [hroot] at hrootfinite
    cases hrootfinite

/-! ## Series -/

/-- A bar whose window of `n` bars is overspread. -/
def OverspreadAt (x : List Float) (n i : ℕ) : Prop :=
  i < x.length ∧ ∃ w, trailing? x n i = some w ∧ Overspread w

/-- The deviations from the means of windows, over the spreads of the windows. -/
def scores (x : List Float) (n : ℕ) : List Float :=
  Series.zipWith (· / ·) (Series.zipWith (· - ·) x (rolling average x n)) (rolling windowStd x n)

theorem newest_of_trailing? {x w : List Float} {n i : ℕ} (hw : trailing? x n i = some w)
    (hi : i < x.length) : newest w = x[i] := by
  rw [trailing?] at hw
  split at hw
  · rename_i hn
    obtain rfl := Option.some.inj hw
    rw [newest, List.getLastD_eq_getLast?, List.getLast?_eq_getElem?, List.length_take_of_le,
      List.getElem?_take_of_lt (by omega), List.getElem?_drop, show i + 1 - n + (n - 1) = i by omega,
      List.getElem?_eq_getElem hi, Option.getD_some]
    rw [List.length_drop]
    omega
  · cases hw

theorem getElem?_scores {x : List Float} {n i : ℕ} (hi : i < x.length) : (scores x n)[i]? =
    some (strict₂ (· / ·)
      (strict₂ (· - ·) x[i] (((trailing? x n i).map (onWindow average)).getD nan))
      (((trailing? x n i).map (onWindow windowStd)).getD nan)) := by
  rw [scores, Series.zipWith, Series.zipWith, List.getElem?_zipWith, List.getElem?_zipWith,
    List.getElem?_eq_getElem hi, getElem?_rolling_of_lt _ hi, getElem?_rolling_of_lt _ hi]

theorem length_scores (x : List Float) (n : ℕ) : (scores x n).length = x.length := by
  simp [scores, Series.zipWith, rolling]

/-- Scores and quotients are the same where no window is overspread. -/
theorem getElem?_zscore_eq {x : List Float} {n i : ℕ} (h : ¬ OverspreadAt x n i) :
    (rolling zscoreOfNewest x n)[i]? = (scores x n)[i]? := by
  by_cases hi : i < x.length
  · rw [getElem?_rolling_of_lt _ hi, getElem?_scores hi]
    cases hw : trailing? x n i with
    -- no full window: undefined here, and a quotient of undefined values there
    | none =>
      rw [Option.map_none, Option.map_none, Option.map_none, Option.getD_none, strict₂_div, div_nan]
      rfl
    | some w =>
      have hwindow : ¬ Overspread w := fun hover => h ⟨hi, w, hw, hover⟩
      rw [Option.map_some, Option.map_some, Option.map_some, Option.getD_some, Option.getD_some,
        Option.getD_some, onWindow_zscore_eq hwindow, newest_of_trailing? hw hi]
  · have hlen : (rolling zscoreOfNewest x n).length = x.length := by
      rw [rolling, List.length_map, List.length_range]
    rw [List.getElem?_eq_none (by omega), List.getElem?_eq_none (by rw [length_scores]; omega)]

/-- On an overspread window the score is 0, and the quotient is undefined. -/
theorem getElem?_zscore_of_overspread {x : List Float} {n i : ℕ} (h : OverspreadAt x n i) :
    (∃ v, (rolling zscoreOfNewest x n)[i]? = some v ∧ (v == 0) = true) ∧
      (scores x n)[i]? = some nan := by
  obtain ⟨hi, w, hw, hover⟩ := h
  obtain ⟨hzero, hstd⟩ := onWindow_zscore_of_overspread hover
  refine ⟨⟨_, getElem?_rolling _ hw hi, hzero⟩, ?_⟩
  rw [getElem?_scores hi, hw, Option.map_some, Option.map_some, Option.getD_some, Option.getD_some,
    hstd, strict₂_div, div_nan]
  rfl

theorem zscore_eq_scores_iff {x : List Float} {n : ℕ} :
    rolling zscoreOfNewest x n = scores x n ↔ ∀ i, ¬ OverspreadAt x n i := by
  constructor
  · intro heq i hover
    obtain ⟨⟨v, hv, hzero⟩, hnone⟩ := getElem?_zscore_of_overspread hover
    rw [heq, hnone, Option.some.injEq] at hv
    rw [← hv] at hzero
    cases hzero
  · exact fun h => List.ext_getElem? fun i => getElem?_zscore_eq (h i)

theorem not_overspreadAt_of_moderate {x : List Float} (hx : ∀ v ∈ x, |value v| ≤ 2 ^ 500) {n : ℕ}
    (hn : n ≤ 2 ^ 17) (i : ℕ) : ¬ OverspreadAt x n i := by
  rintro ⟨hi, w, hw, hover⟩
  refine not_overspread_of_moderate (fun v hv => hx v (mem_of_mem_trailing? hw hv)) ?_ hover
  rwa [length_of_trailing? hw hi]

end Series

/-! ## Expressions -/

namespace Expr

open Series

/-- The expression `ts_zscore(x, n)`. -/
def zscore (x : Expr) (n : ℕ) : Expr := windowed (.rolling .zscore) [x] n

/-- The expression `(x - ts_mean(x, n)) / ts_std(x, n)`. -/
def deviationOverSpread (x : Expr) (n : ℕ) : Expr :=
  .binary .div (.binary .sub x (windowed (.rolling .mean) [x] n)) (windowed (.rolling .std) [x] n)

/-- Both are accepted with the same windows. -/
theorem accepted_scores_iff {x : Expr} (hx : x.Accepted) {n : ℕ} :
    ((zscore x n).Accepted ↔ 1 ≤ n ∧ n ≤ maxWindow) ∧
      ((deviationOverSpread x n).Accepted ↔ 1 ≤ n ∧ n ≤ maxWindow) := by
  have hcall : ∀ f : Rolling,
      (windowed (.rolling f) [x] n).Accepted ↔ 1 ≤ n ∧ n ≤ maxWindow := by
    intro f
    rw [accepted_windowed_iff rfl rfl fun a ha => (List.mem_singleton.mp ha) ▸ hx, and_comm]
    refine and_congr_left fun _ => ⟨fun hzero => ?_, fun hpos hzero => by omega⟩
    by_contra hn
    cases hzero (by omega)
  refine ⟨hcall .zscore, fun h => (hcall .std).mp h.of_binary.2, fun h => ?_⟩
  exact (hx.binary ((hcall .mean).mpr h) .sub).binary ((hcall .std).mpr h) .div

/-- How the standard score stands to its description. -/
structure StandardScores (x : Expr) (n : ℕ) (p : Panel Float) : Prop where
  /-- They ask for windows of the same lengths, and stop the program on the same panels. -/
  alike : (zscore x n).sizes = (deviationOverSpread x n).sizes ∧
    (zscore x n).aborts p = (deviationOverSpread x n).aborts p
  /-- They have the same value at a bar whose window is not overspread. -/
  agree : ∀ i, ¬ OverspreadAt (x.eval p) n i →
    ((zscore x n).eval p)[i]? = ((deviationOverSpread x n).eval p)[i]?
  /-- At a bar whose window is overspread the score is 0, and the quotient undefined. -/
  overspread : ∀ i, OverspreadAt (x.eval p) n i →
    (∃ v, ((zscore x n).eval p)[i]? = some v ∧ (v == 0) = true) ∧
      ((deviationOverSpread x n).eval p)[i]? = some nan
  /-- So they are one series if no window is overspread, and otherwise they are not. -/
  same_iff : SameSeries p (zscore x n) (deviationOverSpread x n) ↔
    ∀ i, ¬ OverspreadAt (x.eval p) n i
  /-- Values up to `2 ^ 500` have no overspread windows. -/
  moderate : (∀ v ∈ x.eval p, |value v| ≤ 2 ^ 500) →
    SameSeries p (zscore x n) (deviationOverSpread x n)

/-- **Standard scores** are the deviations over the spreads, except on overspread windows, where the
spread is infinite and the score is 0.

Between two nodes of an expression values are cleaned, so an infinite spread is undefined before
anything is divided by it. Inside the function for the score it is not, and a finite deviation over
it is 0. Windows of values up to `2 ^ 500` have no such spread. -/
theorem standardScores {x : Expr} (hx : x.Accepted) (n : ℕ) (p : Panel Float) :
    ((zscore x n).Accepted ↔ 1 ≤ n ∧ n ≤ maxWindow) ∧
      ((deviationOverSpread x n).Accepted ↔ 1 ≤ n ∧ n ≤ maxWindow) ∧
      (1 ≤ n → n ≤ maxWindow → StandardScores x n p) := by
  obtain ⟨hleft, hright⟩ := accepted_scores_iff hx (n := n)
  refine ⟨hleft, hright, fun h1 hn => ?_⟩
  have hcall : ∀ f : Rolling,
      Shows p x n (windowed (.rolling f) [x] n) (f.apply (x.eval p) n) :=
    fun f => .call hx rfl rfl (fun _ => List.mem_singleton.mp) hn (by omega)
  have hzscore : Shows p x n (zscore x n) (rolling zscoreOfNewest (x.eval p) n) := hcall .zscore
  have hquotient : Shows p x n (deviationOverSpread x n) (scores (x.eval p) n) :=
    ((hcall .mean).beside hx .sub).binary (hcall .std) .div
  -- both nodes have the same windows, so they can only differ in their values
  have hsame : SameSeries p (zscore x n) (deviationOverSpread x n) ↔
      ∀ i, ¬ OverspreadAt (x.eval p) n i := by
    rw [← zscore_eq_scores_iff]
    constructor
    · intro h
      rw [← hzscore.eval, ← hquotient.eval, h.eval_eq]
    · exact fun h => hzscore.same (hquotient.of_eq h)
  refine ⟨⟨hzscore.sizes.trans hquotient.sizes.symm, hzscore.aborts.trans hquotient.aborts.symm⟩,
    fun i h => ?_, fun i h => ?_, hsame, fun h => ?_⟩
  · rw [hzscore.eval, hquotient.eval]
    exact getElem?_zscore_eq h
  · rw [hzscore.eval, hquotient.eval]
    exact getElem?_zscore_of_overspread h
  · exact hsame.mpr (not_overspreadAt_of_moderate h (hn.trans (by decide)))

/-- Three days with closes whose squares are too large for doubles. -/
def hugeCloses : Panel Float where
  symbol := "TEST"
  interval := .daily
  bars := [⟨.midnight ⟨2017, 4, 3, by decide, by decide, by decide⟩, 1, 1, 1, 1e155, 0⟩,
    ⟨.midnight ⟨2017, 4, 4, by decide, by decide, by decide⟩, 1, 1, 1, 1e155, 0⟩,
    ⟨.midnight ⟨2017, 4, 5, by decide, by decide, by decide⟩, 1, 1, 1, 4e155, 0⟩]
  increasing := @increasing_of_disorder?_eq_none _ _ 0 (by decide)

/-- The newest close is twice the mean, and has a score of 0. -/
theorem standardScores_hugeCloses : (column .close).Accepted ∧ 3 ≤ maxWindow ∧
    StandardScores (column .close) 3 hugeCloses ∧
      OverspreadAt ((column .close).eval hugeCloses) 3 2 := by
  have haccepted : (column .close).Accepted := ⟨rfl, nofun⟩
  obtain ⟨-, -, hscores⟩ := standardScores haccepted 3 hugeCloses
  refine ⟨haccepted, by decide, hscores (by decide) (by decide), ?_⟩
  exact ⟨by decide +kernel, _, rfl, by decide +kernel, by decide +kernel⟩

end Expr

end FactorStudy
