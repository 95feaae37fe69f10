import FactorStudy.Backtest.Basic
import FactorStudy.Stats.Ic
import FactorStudy.Stats.Validity

/-!
# Results

What a study of a factor finds: its figures, the course of the portfolio, and the tables behind
them. A value that is missing in a row stays apart from 0.
-/

namespace FactorStudy

/-- How the layers compare. -/
structure QuantileAnalysis where
  isMonotonic : Bool
  /-- The mean return of the top layer less that of the bottom layer. -/
  spread : Float

/-- The figures of a factor. -/
structure Metrics where
  icMean : Float
  icStd : Float
  icIr : Float
  tStat : Float
  pValue : Float
  icPositivePct : Float
  sharpe : Float
  sortino : Float
  calmar : Float
  winRate : Float
  profitFactor : Float
  avgWin : Float
  avgLoss : Float
  maxDrawdown : Float
  totalReturn : Float
  annualizedReturn : Float
  annualizedVol : Float
  turnover : Float
  factorAutocorr : Float
  numTrades : Nat
  numObservations : Nat
  periods : Nat
  nQuantiles : Nat
  score : Float
  isValidFactor : Bool
  validityReason : String
  validityChecks : ValidityChecks
  quantileAnalysis : QuantileAnalysis

/-- One row of the course of the portfolio. -/
structure EquityPoint where
  date : Timestamp
  equity : Option Float
  drawdown : Option Float
  rollingIc : Option Float
  rollingIcir : Option Float
  cumulativeIc : Option Float

/-- One bin of the IC histogram, named by its lower edge. -/
structure IcBin where
  range : String
  count : Nat

/-- The IC of one month. -/
structure PeriodIc where
  period : String
  ic : Float

/-- What a backtest of one factor finds. -/
structure BacktestResult where
  metrics : Metrics
  equityCurve : List EquityPoint
  icHistogram : List IcBin
  csIcData : List PeriodIc
  layerData : List (LayerSummary Float)

/-- The part of one factor in a combination. -/
structure FactorDetail where
  expression : String
  weight : Float
  ic : Float

/-- What a backtest of a combination finds, and how each factor does on its own. -/
structure CombinationResult where
  result : BacktestResult
  factorDetails : List FactorDetail

end FactorStudy
