import FactorStudy.Backtest.Portfolio
import FactorStudy.Error

/-!
# Quantile backtests

A factor is tested by trading it: the portfolio is long the forward return while the factor is in
its top layer, short while it is in the bottom layer, and holds nothing in between. All lists of a
backtest run in step with its observations.
-/

namespace FactorStudy

open Number Series

variable {α : Type} [Number α]

/-- The numbers of layers a factor can be cut into. -/
def quantileChoices : List Nat := [3, 5, 10]

/-- What a backtest is run with: the horizon of the forward returns in bars, the number of layers,
and the number of periods in a year. The horizon is a machine word, since it is added to
positions. -/
structure BacktestConfig (α : Type) where
  periods : UInt64
  quantiles : Nat
  annualization : α
  periods_pos : 1 ≤ periods
  quantiles_mem : quantiles ∈ quantileChoices

/-- A configuration with an acceptable horizon and number of layers, checked in this order. -/
def BacktestConfig.of {α : Type} (periods : UInt64) (quantiles : Nat) (annualization : α) :
    Outcome (BacktestConfig α) :=
  if hp : 1 ≤ periods then
    if hq : quantiles ∈ quantileChoices then .ok ⟨periods, quantiles, annualization, hp, hq⟩
    else .error (.invalidQuantile quantiles)
  else .error (.invalidPeriods periods.toNat)

/-- The course and the outcome of a backtest. -/
structure Backtest (α : Type) where
  observations : List (Observation α)
  /-- The portfolio's return at each observation, 0 without a position. -/
  longShort : List α
  equity : List α
  drawdown : List α
  /-- Whether the portfolio is long. -/
  inTop : List Bool
  layers : List (LayerSummary α)
  isMonotonic : Bool
  /-- The mean return of the top layer less that of the bottom layer. -/
  spread : α
  stats : PortfolioStats α

namespace Backtest

/-- The positions at which both a factor and a forward return are defined. -/
def aligned (factor forward : List α) : List (Nat × α × α) :=
  ((factor.zip forward).zipIdx.filter fun ((f, r), _) => !isNaN f && !isNaN r).map
    fun ((f, r), i) => (i, f, r)

/-- The observations of a factor on a panel. -/
def observe (factor : FactorSeries α) (panel : Panel α) (config : BacktestConfig α) :
    List (Observation α) :=
  let points := aligned factor.values (Returns.forward (panel.column .close) config.periods)
  let layers := Layers.assign (points.map fun (_, f, _) => f) config.quantiles
  points.zipWith (fun (i, f, r) layer => ⟨i, f, r, layer⟩) layers

/-- The lowest and the highest layer with an observation. -/
def extremes? (observations : List (Observation α)) : Option (Nat × Nat) := do
  let layers := observations.map (·.layer)
  return (← layers.min?, ← layers.max?)

/-- The position at an observation: 1 for long, -1 for short. -/
def position (bottom top : Nat) (o : Observation α) : α :=
  if o.layer = top then 1 else if o.layer = bottom then -1 else 0

/-- The outermost layers between which there is something to trade. -/
def legs? (observations : List (Observation α)) : Option (Nat × Nat) :=
  (extremes? observations).filter fun (bottom, top) => bottom < top

/-- Runs a factor over a panel. -/
def run (factor : FactorSeries α) (panel : Panel α) (config : BacktestConfig α) : Backtest α :=
  let observations := observe factor panel config
  let returnAt (legs : Nat × Nat) (o : Observation α) : α :=
    position legs.1 legs.2 o * o.forward
  let longShort :=
    match legs? observations with
    | some legs => observations.map (returnAt legs)
    | none => observations.map fun _ => 0
  let active :=
    match legs? observations with
    | some legs =>
      (observations.filter fun o => o.layer == legs.1 || o.layer == legs.2).map (returnAt legs)
    | none => []
  let equity := Returns.compound longShort
  let drawdown := Returns.drawdowns equity
  let layers := (List.range config.quantiles).map
    (Layers.summary observations config.annualization)
  let meanOf (layer : Nat) : α := (layers[layer]?.map (·.meanReturn)).getD nan
  { observations
    longShort
    equity
    drawdown
    inTop :=
      match legs? observations with
      | some (_, top) => observations.map fun o => o.layer == top
      | none => observations.map fun _ => false
    layers
    isMonotonic := Layers.isMonotonic layers
    spread :=
      match extremes? observations with
      | some (bottom, top) => orZero (meanOf top - meanOf bottom)
      | none => 0
    stats := Portfolio.stats equity drawdown active config.annualization }

end Backtest

end FactorStudy
