import FactorStudy.Study.Result
import FactorStudy.Stats.Histogram
import FactorStudy.Config.Settings

/-!
# The analysis of a factor

From a factor and its panel to a full result: the backtest, the ICs of its observations, the tests
and the score.
-/

namespace FactorStudy.Analysis

open Number

/-- The observations' times. -/
def times (panel : Panel Float) (observations : List (Observation Float)) : List Timestamp :=
  observations.filterMap fun o => (panel.bars[o.index]?).map (·.timestamp)

/-- The rows of the chart: the latest `keep` ones, or all when `keep` is 0. -/
def latest {α : Type} (keep : Nat) (rows : List α) : List α :=
  if keep = 0 then rows else rows.drop (rows.length - keep)

/-- The course of the portfolio, row by row. -/
def curve (times : List Timestamp) (equity drawdown ic icir cumulative : List Float) :
    List EquityPoint :=
  (times.zip (equity.zip (drawdown.zip (ic.zip (icir.zip cumulative))))).map
    fun (date, e, d, i, r, c) => ⟨date, finite? e, finite? d, finite? i, finite? r, finite? c⟩

/-- The histogram of ICs with its bins named. -/
def histogram (ic : List Float) (settings : Settings) : List IcBin :=
  (Histogram.counts ic settings.histogramBins settings.histogramMinIc).map
    fun (edge, count) => ⟨Decimal.fixed 2 edge, count⟩

/-- The monthly ICs with their months named. -/
def months (times : List Timestamp) (factor returns : List Float) (least : Nat) : List PeriodIc :=
  (Ic.monthly times factor returns least).map fun (month, ic) => ⟨Ic.monthText month, ic⟩

variable [TDistribution]

/-- What a factor's backtest on a panel finds. -/
def run (factor : FactorSeries Float) (panel : Panel Float) (config : BacktestConfig Float)
    (settings : Settings) : BacktestResult :=
  let bt := Backtest.run factor panel config
  let factors := bt.observations.map (·.factor)
  let returns := bt.observations.map (·.forward)
  let times := times panel bt.observations
  let rollingIc := Ic.rolling factors returns settings.icWindow
  let rollingIcir := Ic.rollingRatio rollingIc settings.icirWindow
  let cumulativeIc := Ic.cumulative rollingIc
  let ic := Ic.summary rollingIc
  let evidence : Validity.Evidence :=
    { tStat := ic.tStat
      icMean := ic.mean
      sharpe := bt.stats.sharpe
      winRate := bt.stats.winRate
      observations := bt.observations.length
      minObservations := settings.minObservations }
  let measures : Score.Measures Float :=
    { icMean := ic.mean
      icRatio := ic.ratio
      sharpe := bt.stats.sharpe
      winRate := bt.stats.winRate
      maxDrawdown := bt.stats.maxDrawdown }
  { metrics :=
      { icMean := ic.mean
        icStd := ic.std
        icIr := ic.ratio
        tStat := ic.tStat
        pValue := ic.pValue
        icPositivePct := ic.positiveShare
        sharpe := bt.stats.sharpe
        sortino := bt.stats.sortino
        calmar := bt.stats.calmar
        winRate := bt.stats.winRate
        profitFactor := bt.stats.profitFactor
        avgWin := bt.stats.avgWin
        avgLoss := bt.stats.avgLoss
        maxDrawdown := bt.stats.maxDrawdown
        totalReturn := bt.stats.totalReturn
        annualizedReturn := bt.stats.annualizedReturn
        annualizedVol := bt.stats.annualizedVol
        turnover := Ic.turnover bt.inTop
        factorAutocorr := orZero (Ic.autocorrelation factor.values)
        numTrades := bt.stats.numTrades
        numObservations := bt.observations.length
        periods := config.periods.toNat
        nQuantiles := config.quantiles
        score := Score.composite measures settings.score
        isValidFactor := (Validity.checks evidence).allPass
        validityReason := Validity.reason evidence
        validityChecks := Validity.checks evidence
        quantileAnalysis := ⟨bt.isMonotonic, bt.spread⟩ }
    equityCurve := latest settings.chartPoints
      (curve times bt.equity bt.drawdown rollingIc rollingIcir cumulativeIc)
    icHistogram := histogram rollingIc settings
    csIcData := months times factors returns settings.monthlyMinObs
    layerData := bt.layers }

/-- The mean rolling IC of a factor on its own against the return over `periods` bars. -/
def factorIc (factor : FactorSeries Float) (panel : Panel Float) (periods : UInt64)
    (icWindow : Nat) : Float :=
  let points := Backtest.aligned factor.values (Returns.forward (panel.column .close) periods)
  (Ic.summary (Ic.rolling (points.map fun (_, f, _) => f) (points.map fun (_, _, r) => r)
    icWindow)).mean

end FactorStudy.Analysis
