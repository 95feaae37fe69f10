import FactorStudy.Series.Pointwise
import FactorStudy.Proofs.Backtest.Frequency
import FactorStudy.Proofs.Backtest.Observations
import FactorStudy.Proofs.Double.TotalOrder

/-!
# Only the order of a factor counts

A backtest cuts the order of the factor's values into layers and from there on looks at layers and
returns. So rescaling the factor by anything that keeps the order of its values gives the same
backtest, up to the values that the observations show (`run_map`). Logarithms, powers and shifts of
a factor are tested alike, as long as no two values fall together and none overflows.
-/

namespace FactorStudy

open Number

namespace FactorSeries

/-- A factor with `g` applied to its defined values. -/
def map (g : Float → Float) (s : FactorSeries Float) : FactorSeries Float :=
  .ofValues (Series.map g s.values)

theorem values_map (g : Float → Float) (s : FactorSeries Float) :
    (s.map g).values = s.values.map fun v => orNaN (Series.strict g v) := by
  show (s.values.map (Series.strict g)).map orNaN = _
  rw [List.map_map]
  rfl

end FactorSeries

/-! ## The observations of a rescaled factor -/

namespace Layers

theorem key_eq {values : List Float} {i : ℕ} (hi : i < values.length) :
    key values i = totalOrderKey values[i] := by
  rw [key, List.getD_eq_getElem _ _ hi]

theorem key_map (g : Float → Float) {values : List Float} {i : ℕ} (hi : i < values.length) :
    key (values.map g) i = totalOrderKey (g values[i]) := by
  rw [key_eq (by rwa [List.length_map]), List.getElem_map]

/-- What keeps the order of the values keeps the order of their positions. -/
theorem order_map {g : Float → Float} {values : List Float}
    (hg : ∀ v ∈ values, ∀ w ∈ values, totalOrderKey v < totalOrderKey w →
      totalOrderKey (g v) < totalOrderKey (g w)) : order (values.map g) = order values := by
  refine (eq_order ?_ ?_).symm
  · rw [List.length_map]
    exact order_perm values
  · -- equal keys belong to equal values, so ties stay ties
    refine (pairwise_order values).imp_of_mem ?_
    intro i j hi hj hij
    have hi := List.mem_range.mp ((order_perm values).mem_iff.mp hi)
    have hj := List.mem_range.mp ((order_perm values).mem_iff.mp hj)
    rw [Before, key_eq hi, key_eq hj] at hij
    rw [Before, key_map g hi, key_map g hj]
    refine hij.imp ?_ ?_
    · exact hg _ (List.getElem_mem hi) _ (List.getElem_mem hj)
    · rintro ⟨heq, hlt⟩
      exact ⟨by rw [totalOrderKey_inj heq], hlt⟩

/-- The layers are settled by the order. -/
theorem assign_map {g : Float → Float} {values : List Float}
    (horder : order (values.map g) = order values) (quantiles : ℕ) :
    assign (values.map g) quantiles = assign values quantiles := by
  simp only [assign, horder, List.length_map]

end Layers

namespace Backtest

variable {factor : FactorSeries Float} {panel : Panel Float} {config : BacktestConfig Float}
  {g : Float → Float}

theorem aligned_map {values forward : List Float} (hg : ∀ v ∈ values, isNaN (g v) = isNaN v) :
    aligned (values.map g) forward = (aligned values forward).map fun (i, f, r) => (i, g f, r) := by
  have hzip : ((values.map g).zip forward).zipIdx =
      (values.zip forward).zipIdx.map fun ((f, r), i) => ((g f, r), i) := by
    rw [List.zip_map_left, List.zipIdx_map]
    rfl
  rw [aligned, aligned, hzip, List.filter_map, List.map_map, List.map_map]
  congr 1
  refine List.filter_congr ?_
  rintro ⟨⟨f, r⟩, i⟩ hpoint
  have hmem := List.mem_of_getElem? (List.mem_zipIdx_iff_getElem?.mp hpoint)
  show (!isNaN (g f) && !isNaN r) = (!isNaN f && !isNaN r)
  rw [hg f (List.of_mem_zip hmem).1]

/-- Where `g` is finite on the defined values, the points of the rescaled factor are those of the
factor. -/
theorem points_map (hfinite : ∀ v ∈ Series.defined factor.values, isFinite (g v) = true) :
    points (factor.map g) panel config =
      (points factor panel config).map fun (i, f, r) => (i, g f, r) := by
  -- `g` is applied to defined values only, so its strict form is `g` itself
  have hdefined : ∀ v ∈ factor.values, isNaN v = false → orNaN (Series.strict g v) = g v := by
    intro v hv hdef
    have hg := hfinite v (List.mem_filter.mpr ⟨hv, by rw [hdef]; rfl⟩)
    rw [Series.strict, if_neg (by rw [hdef]; decide), Double.orNaN_eq_self hg,
      Double.orNaN_eq_self hg]
  -- and what was undefined stays so: the same bars have points
  have hnan : ∀ v ∈ factor.values, isNaN (orNaN (Series.strict g v)) = isNaN v := by
    intro v hv
    cases hdef : isNaN v with
    | true =>
      rw [Series.strict, if_pos hdef]
      rfl
    | false =>
      rw [hdefined v hv hdef]
      exact Double.isNaN_of_isFinite (hfinite v (List.mem_filter.mpr ⟨hv, by rw [hdef]; rfl⟩))
  rw [points, FactorSeries.values_map, aligned_map hnan, points]
  refine List.map_congr_left ?_
  rintro ⟨i, f, r⟩ hpoint
  obtain ⟨⟨hat, hdef⟩, -⟩ := mem_aligned_iff.mp hpoint
  show (i, orNaN (Series.strict g f), r) = (i, g f, r)
  rw [hdefined f (List.mem_of_getElem? hat) hdef]

/-- The values of the factor at the points. -/
def observed (factor : FactorSeries Float) (panel : Panel Float) (config : BacktestConfig Float) :
    List Float :=
  (points factor panel config).map fun (_, f, _) => f

theorem observe_eq (factor : FactorSeries Float) (panel : Panel Float)
    (config : BacktestConfig Float) : observe factor panel config =
      (points factor panel config).zipWith (fun (i, f, r) layer => ⟨i, f, r, layer⟩)
        (Layers.assign (observed factor panel config) config.quantiles) := rfl

theorem map_factor_observe (factor : FactorSeries Float) (panel : Panel Float)
    (config : BacktestConfig Float) :
    (observe factor panel config).map (·.factor) = observed factor panel config := by
  rw [observed, ← map_observe, List.map_map]
  rfl

theorem observed_map (hfinite : ∀ v ∈ Series.defined factor.values, isFinite (g v) = true) :
    observed (factor.map g) panel config = (observed factor panel config).map g := by
  rw [observed, points_map hfinite, List.map_map, observed, List.map_map]
  rfl

/-- They are defined values of the factor. -/
theorem defined_of_mem_observed {v : Float} (h : v ∈ observed factor panel config) :
    v ∈ Series.defined factor.values := by
  obtain ⟨⟨i, f, r⟩, hpoint, rfl⟩ := List.mem_map.mp h
  obtain ⟨⟨hat, hdef⟩, -⟩ := mem_aligned_iff.mp hpoint
  exact List.mem_filter.mpr ⟨List.mem_of_getElem? hat, by rw [hdef]; rfl⟩

/-- `g` keeps the defined values of a factor finite and in order. -/
structure Rescales (g : Float → Float) (factor : FactorSeries Float) : Prop where
  finite : ∀ v ∈ Series.defined factor.values, isFinite (g v) = true
  increasing : ∀ v ∈ Series.defined factor.values, ∀ w ∈ Series.defined factor.values,
    totalOrderKey v < totalOrderKey w → totalOrderKey (g v) < totalOrderKey (g w)

/-- An observation of the rescaled factor. -/
def rescale (g : Float → Float) (o : Observation Float) : Observation Float :=
  { o with factor := g o.factor }

theorem observe_map (h : Rescales g factor) :
    observe (factor.map g) panel config = (observe factor panel config).map (rescale g) := by
  have hlayers : Layers.assign (observed (factor.map g) panel config) config.quantiles =
      Layers.assign (observed factor panel config) config.quantiles := by
    rw [observed_map h.finite]
    refine Layers.assign_map (Layers.order_map ?_) _
    intro v hv w hw
    exact h.increasing v (defined_of_mem_observed hv) w (defined_of_mem_observed hw)
  rw [observe_eq, hlayers, points_map h.finite, List.zipWith_map_left, observe_eq,
    List.map_zipWith]
  rfl

/-! ## The run on a rescaled factor -/

section Relabelled

variable {h : Observation Float → Observation Float} (hlayer : ∀ o, (h o).layer = o.layer)
  (hforward : ∀ o, (h o).forward = o.forward) (observations : List (Observation Float))

include hlayer

theorem extremes?_map : extremes? (observations.map h) = extremes? observations := by
  simp only [extremes?, List.map_map, Function.comp_def, hlayer]

theorem legs?_map : legs? (observations.map h) = legs? observations := by
  rw [legs?, extremes?_map hlayer, legs?]

include hforward

theorem summary_map (annualization : Float) :
    Layers.summary (observations.map h) annualization =
      Layers.summary observations annualization := by
  funext layer
  simp only [Layers.summary, List.filter_map, List.map_map, Function.comp_def, hlayer, hforward]

/-- Of its observations a backtest reads the layers and the forward returns. -/
theorem run_of_observe {factor' : FactorSeries Float}
    (hobserve : observe factor' panel config = (observe factor panel config).map h) :
    run factor' panel config =
      { run factor panel config with observations := (run factor panel config).observations.map h } := by
  simp only [run, hobserve, legs?_map hlayer, extremes?_map hlayer,
    summary_map hlayer hforward, List.map_map, List.filter_map, Function.comp_def, position,
    hlayer, hforward]

end Relabelled

/-- **Only the order counts.** A factor that is rescaled so that its values stay finite and in order
gives the same backtest, with the same observations but for the values they show.

A backtest uses the values of a factor to sort its observations, and nothing else of them; the order
of the keys that it sorts by is all that is asked of the scale. -/
theorem run_map (panel : Panel Float) (config : BacktestConfig Float) (h : Rescales g factor) :
    run (factor.map g) panel config =
      { run factor panel config with
        observations := (run factor panel config).observations.map (rescale g) } :=
  run_of_observe (h := rescale g) (fun _ => rfl) (fun _ => rfl) (observe_map h)

/-- A day that closes at a price. -/
def dayOfWeek (n : ℕ) (h : 1 ≤ n ∧ n ≤ 31) (close : Float) : Bar Float :=
  ⟨.midnight ⟨2025, 8, n, by decide, by decide, h⟩, close, close, close, close, 1⟩

/-- A week of ups and downs. -/
def week : Panel Float where
  symbol := "TEST"
  interval := .daily
  bars := [dayOfWeek 18 (by decide) 10, dayOfWeek 19 (by decide) 11, dayOfWeek 20 (by decide) 9,
    dayOfWeek 21 (by decide) 12, dayOfWeek 22 (by decide) 8, dayOfWeek 23 (by decide) 8,
    dayOfWeek 24 (by decide) 13]
  increasing := @increasing_of_disorder?_eq_none _ _ 0 (by decide)

/-- A factor that is known on its workdays. -/
def signal : FactorSeries Float := .ofValues [3, -1, 0.5, 4, -2, nan, nan]

/-- Returns over a day in five layers. -/
def overOneDay : BacktestConfig Float := ⟨1, 5, 252, by decide, by decide⟩

theorem run_map_cubed : Rescales (fun v => v * v * v) signal ∧
    run (signal.map fun v => v * v * v) week overOneDay =
      { run signal week overOneDay with
        observations := (run signal week overOneDay).observations.map
          (rescale fun v => v * v * v) } := by
  have hcubed : Rescales (fun v => v * v * v) signal := ⟨by decide +kernel, by decide +kernel⟩
  exact ⟨hcubed, run_map week overOneDay hcubed⟩

end Backtest

end FactorStudy
