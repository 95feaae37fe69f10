import FactorStudy.Config.Reader
import FactorStudy.Stats.Score
import FactorStudy.Expr.Eval

/-!
# Settings of an analysis

Every setting has a standard value, which a configuration may replace. Settings read from a
configuration have been checked, and are what an analysis can rely on.
-/

namespace FactorStudy

/-- What an analysis is run with. -/
structure Settings where
  icWindow : Nat
  icirWindow : Nat
  minObservations : Nat
  histogramBins : Nat
  histogramMinIc : Nat
  monthlyMinObs : Nat
  /-- How many of the latest equity points are kept; 0 keeps all. -/
  chartPoints : Nat
  strictWindows : Bool
  annualizationFactor : Option Float
  score : ScorePolicy Float

namespace Settings

def standard : Settings where
  icWindow := 20
  icirWindow := 60
  minObservations := 100
  histogramBins := 15
  histogramMinIc := 10
  monthlyMinObs := 5
  chartPoints := 500
  strictWindows := false
  annualizationFactor := none
  score := ScorePolicy.standard

/-- A count of the group `analysis`, which has a lower limit. -/
def count (c : Config) (key : String) (default least : Nat) : Outcome Nat :=
  let value := c.int "analysis" key default
  if value < least then
    .error (.configInvalid "analysis" key s!"{key} must be at least {least}")
  else .ok value.toNat

/-- A policy that makes sense, or its fault as an error of the configuration. -/
def checkPolicy (p : ScorePolicy Float) : Outcome Unit :=
  p.validate.mapError fun fault => .configInvalid "score" fault.key fault.message

/-- The policy of the group `score`. -/
def policyOf (c : Config) : Outcome (ScorePolicy Float) := do
  let d : ScorePolicy Float := ScorePolicy.standard
  let get (key : String) (default : Float) : Float := c.double "score" key default
  let policy : ScorePolicy Float :=
    { wIc := get "w_ic" d.wIc
      wIcir := get "w_icir" d.wIcir
      wSharpe := get "w_sharpe" d.wSharpe
      wWinRate := get "w_win_rate" d.wWinRate
      wDrawdown := get "w_drawdown" d.wDrawdown
      icFull := get "ic_full" d.icFull
      icirFull := get "icir_full" d.icirFull
      sharpeFull := get "sharpe_full" d.sharpeFull
      winRateFloor := get "win_rate_floor" d.winRateFloor
      winRateFull := get "win_rate_full" d.winRateFull
      drawdownZero := get "drawdown_zero" d.drawdownZero }
  checkPolicy policy
  return policy

/-- The number of periods in a year, if the configuration gives one. -/
def annualizationOf (c : Config) : Outcome (Option Float) :=
  let invalid (reason : String) : Error := .configInvalid "analysis" "annualization_factor" reason
  match c.get? "analysis" "annualization_factor" with
  | none => .ok none
  | some raw =>
    match Decimal.readFloat (Text.trimBlank raw.toList) with
    | .error _ => .error (invalid ("not a number: " ++ raw))
    | .ok value =>
      if value.isFinite ∧ 0 < value then .ok (some value)
      else .error (invalid "annualization_factor must be positive")

/-- The settings of a configuration. The first fault is reported, in the order in which the
settings are read here. -/
def ofConfig (c : Config) : Outcome Settings := do
  let d := standard
  let annualizationFactor ← annualizationOf c
  return {
    icWindow := ← count c "ic_window" d.icWindow 2
    icirWindow := ← count c "icir_window" d.icirWindow 2
    minObservations := ← count c "min_observations" d.minObservations 0
    histogramBins := ← count c "histogram_bins" d.histogramBins 1
    histogramMinIc := ← count c "histogram_min_ic" d.histogramMinIc 0
    monthlyMinObs := ← count c "monthly_min_obs" d.monthlyMinObs 2
    chartPoints := ← count c "chart_points" d.chartPoints 0
    strictWindows := c.bool "analysis" "strict_windows" d.strictWindows
    annualizationFactor
    score := ← policyOf c }

def windowPolicy (s : Settings) : WindowPolicy := if s.strictWindows then .strict else .lenient

/-- The number of periods in a year: as configured, else as the bar length has it. -/
def annualization (s : Settings) (i : Interval) : Float :=
  s.annualizationFactor.getD i.periodsPerYear

end Settings

end FactorStudy
