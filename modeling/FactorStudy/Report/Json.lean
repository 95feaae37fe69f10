import FactorStudy.Report.Basic
import FactorStudy.Json.Reader
import FactorStudy.Json.Writer
import FactorStudy.Time.Reader
import FactorStudy.Error

/-!
# Reports as JSON

The stored form of results and reports. An object holds one member for each field; reading one,
members with other names are passed over, a field given twice is a fault, and a field that may be
missing may also be left out. The fields may also stand in an array, in their order.
-/

namespace FactorStudy

namespace Json

/-- The members of an object none of whose fields is given twice, or the items of an array that has
one for each field. -/
def fields? (names : List String) : Json → Option (List (String × Json))
  | object members => if eachOnce members names then some members else none
  | array items => if items.length = names.length then some (names.zip items) else none
  | _ => none

/-- A field that is there. -/
def field? {α : Type} (members : List (String × Json)) (name : String) (f : Json → Option α) :
    Option α :=
  (member? members name).bind f

/-- A field that may be left out. -/
def optionalField? {α : Type} (members : List (String × Json)) (name : String)
    (f : Json → Option α) : Option (Option α) :=
  match member? members name with
  | some j => asOption? f j
  | none => some none

end Json

open Json

def ValidityChecks.fieldNames : List String :=
  ["ic_significance", "ic_meaningful", "positive_sharpe", "above_random", "sufficient_data"]

def ValidityChecks.toJson (c : ValidityChecks) : Json :=
  object [("ic_significance", bool c.icSignificance), ("ic_meaningful", bool c.icMeaningful),
    ("positive_sharpe", bool c.positiveSharpe), ("above_random", bool c.aboveRandom),
    ("sufficient_data", bool c.sufficientData)]

def ValidityChecks.ofJson? (j : Json) : Option ValidityChecks := do
  let ms ← fields? fieldNames j
  return {
    icSignificance := ← field? ms "ic_significance" asBool?
    icMeaningful := ← field? ms "ic_meaningful" asBool?
    positiveSharpe := ← field? ms "positive_sharpe" asBool?
    aboveRandom := ← field? ms "above_random" asBool?
    sufficientData := ← field? ms "sufficient_data" asBool? }

def QuantileAnalysis.fieldNames : List String := ["is_monotonic", "spread"]

def QuantileAnalysis.toJson (q : QuantileAnalysis) : Json :=
  object [("is_monotonic", bool q.isMonotonic), ("spread", ofDouble q.spread)]

def QuantileAnalysis.ofJson? (j : Json) : Option QuantileAnalysis := do
  let ms ← fields? fieldNames j
  return {
    isMonotonic := ← field? ms "is_monotonic" asBool?
    spread := ← field? ms "spread" asDouble? }

def Metrics.fieldNames : List String :=
  ["ic_mean", "ic_std", "ic_ir", "t_stat", "p_value", "ic_positive_pct", "sharpe", "sortino",
    "calmar", "win_rate", "profit_factor", "avg_win", "avg_loss", "max_drawdown", "total_return",
    "annualized_return", "annualized_vol", "turnover", "factor_autocorr", "num_trades",
    "num_observations", "periods", "n_quantiles", "score", "is_valid_factor", "validity_reason",
    "validity_checks", "quantile_analysis"]

def Metrics.toJson (m : Metrics) : Json :=
  object [("ic_mean", ofDouble m.icMean), ("ic_std", ofDouble m.icStd), ("ic_ir", ofDouble m.icIr),
    ("t_stat", ofDouble m.tStat), ("p_value", ofDouble m.pValue),
    ("ic_positive_pct", ofDouble m.icPositivePct), ("sharpe", ofDouble m.sharpe),
    ("sortino", ofDouble m.sortino), ("calmar", ofDouble m.calmar),
    ("win_rate", ofDouble m.winRate), ("profit_factor", ofDouble m.profitFactor),
    ("avg_win", ofDouble m.avgWin), ("avg_loss", ofDouble m.avgLoss),
    ("max_drawdown", ofDouble m.maxDrawdown), ("total_return", ofDouble m.totalReturn),
    ("annualized_return", ofDouble m.annualizedReturn),
    ("annualized_vol", ofDouble m.annualizedVol), ("turnover", ofDouble m.turnover),
    ("factor_autocorr", ofDouble m.factorAutocorr), ("num_trades", ofCount m.numTrades),
    ("num_observations", ofCount m.numObservations), ("periods", ofCount m.periods),
    ("n_quantiles", ofCount m.nQuantiles), ("score", ofDouble m.score),
    ("is_valid_factor", bool m.isValidFactor), ("validity_reason", string m.validityReason),
    ("validity_checks", m.validityChecks.toJson),
    ("quantile_analysis", m.quantileAnalysis.toJson)]

def Metrics.ofJson? (j : Json) : Option Metrics := do
  let ms ← fields? fieldNames j
  return {
    icMean := ← field? ms "ic_mean" asDouble?
    icStd := ← field? ms "ic_std" asDouble?
    icIr := ← field? ms "ic_ir" asDouble?
    tStat := ← field? ms "t_stat" asDouble?
    pValue := ← field? ms "p_value" asDouble?
    icPositivePct := ← field? ms "ic_positive_pct" asDouble?
    sharpe := ← field? ms "sharpe" asDouble?
    sortino := ← field? ms "sortino" asDouble?
    calmar := ← field? ms "calmar" asDouble?
    winRate := ← field? ms "win_rate" asDouble?
    profitFactor := ← field? ms "profit_factor" asDouble?
    avgWin := ← field? ms "avg_win" asDouble?
    avgLoss := ← field? ms "avg_loss" asDouble?
    maxDrawdown := ← field? ms "max_drawdown" asDouble?
    totalReturn := ← field? ms "total_return" asDouble?
    annualizedReturn := ← field? ms "annualized_return" asDouble?
    annualizedVol := ← field? ms "annualized_vol" asDouble?
    turnover := ← field? ms "turnover" asDouble?
    factorAutocorr := ← field? ms "factor_autocorr" asDouble?
    numTrades := ← field? ms "num_trades" asCount?
    numObservations := ← field? ms "num_observations" asCount?
    periods := ← field? ms "periods" asCount?
    nQuantiles := ← field? ms "n_quantiles" asCount?
    score := ← field? ms "score" asDouble?
    isValidFactor := ← field? ms "is_valid_factor" asBool?
    validityReason := ← field? ms "validity_reason" asString?
    validityChecks := ← field? ms "validity_checks" ValidityChecks.ofJson?
    quantileAnalysis := ← field? ms "quantile_analysis" QuantileAnalysis.ofJson? }

def EquityPoint.fieldNames : List String :=
  ["date", "equity", "drawdown", "rolling_ic", "rolling_icir", "cumulative_ic"]

def EquityPoint.toJson (p : EquityPoint) : Json :=
  object [("date", string p.date.isoText), ("equity", ofOption ofDouble p.equity),
    ("drawdown", ofOption ofDouble p.drawdown), ("rolling_ic", ofOption ofDouble p.rollingIc),
    ("rolling_icir", ofOption ofDouble p.rollingIcir),
    ("cumulative_ic", ofOption ofDouble p.cumulativeIc)]

def EquityPoint.ofJson? (j : Json) : Option EquityPoint := do
  let ms ← fields? fieldNames j
  return {
    date := ← (← field? ms "date" asString?) |> Timestamp.readIso?
    equity := ← optionalField? ms "equity" asDouble?
    drawdown := ← optionalField? ms "drawdown" asDouble?
    rollingIc := ← optionalField? ms "rolling_ic" asDouble?
    rollingIcir := ← optionalField? ms "rolling_icir" asDouble?
    cumulativeIc := ← optionalField? ms "cumulative_ic" asDouble? }

def IcBin.toJson (b : IcBin) : Json :=
  object [("range", string b.range), ("count", ofCount b.count)]

def IcBin.ofJson? (j : Json) : Option IcBin := do
  let ms ← fields? ["range", "count"] j
  return { range := ← field? ms "range" asString?, count := ← field? ms "count" asCount? }

def PeriodIc.toJson (p : PeriodIc) : Json :=
  object [("period", string p.period), ("ic", ofDouble p.ic)]

def PeriodIc.ofJson? (j : Json) : Option PeriodIc := do
  let ms ← fields? ["period", "ic"] j
  return { period := ← field? ms "period" asString?, ic := ← field? ms "ic" asDouble? }

def LayerSummary.fieldNames : List String :=
  ["layer", "mean_return", "total_return", "sharpe", "win_rate", "count"]

def LayerSummary.toJson (l : LayerSummary Float) : Json :=
  object [("layer", ofCount l.layer), ("mean_return", ofDouble l.meanReturn),
    ("total_return", ofDouble l.totalReturn), ("sharpe", ofDouble l.sharpe),
    ("win_rate", ofDouble l.winRate), ("count", ofCount l.count)]

def LayerSummary.ofJson? (j : Json) : Option (LayerSummary Float) := do
  let ms ← fields? fieldNames j
  return {
    layer := ← field? ms "layer" asCount?
    meanReturn := ← field? ms "mean_return" asDouble?
    totalReturn := ← field? ms "total_return" asDouble?
    sharpe := ← field? ms "sharpe" asDouble?
    winRate := ← field? ms "win_rate" asDouble?
    count := ← field? ms "count" asCount? }

def BacktestResult.fieldNames : List String :=
  ["metrics", "equity_curve", "ic_histogram", "cs_ic_data", "layer_data"]

/-- The members of a result's object. -/
def BacktestResult.members (r : BacktestResult) : List (String × Json) :=
  [("metrics", r.metrics.toJson), ("equity_curve", array (r.equityCurve.map EquityPoint.toJson)),
    ("ic_histogram", array (r.icHistogram.map IcBin.toJson)),
    ("cs_ic_data", array (r.csIcData.map PeriodIc.toJson)),
    ("layer_data", array (r.layerData.map LayerSummary.toJson))]

def BacktestResult.toJson (r : BacktestResult) : Json := object r.members

def BacktestResult.ofJson? (j : Json) : Option BacktestResult := do
  let ms ← fields? fieldNames j
  return {
    metrics := ← field? ms "metrics" Metrics.ofJson?
    equityCurve := ← field? ms "equity_curve" (asList? EquityPoint.ofJson?)
    icHistogram := ← field? ms "ic_histogram" (asList? IcBin.ofJson?)
    csIcData := ← field? ms "cs_ic_data" (asList? PeriodIc.ofJson?)
    layerData := ← field? ms "layer_data" (asList? LayerSummary.ofJson?) }

def FactorDetail.toJson (d : FactorDetail) : Json :=
  object [("expression", string d.expression), ("weight", ofDouble d.weight), ("ic", ofDouble d.ic)]

def FactorDetail.ofJson? (j : Json) : Option FactorDetail := do
  let ms ← fields? ["expression", "weight", "ic"] j
  return {
    expression := ← field? ms "expression" asString?
    weight := ← field? ms "weight" asDouble?
    ic := ← field? ms "ic" asDouble? }

/-- The object of the result with one more member. -/
def CombinationResult.toJson (c : CombinationResult) : Json :=
  object (c.result.members ++ [("factor_details", array (c.factorDetails.map FactorDetail.toJson))])

def CombinationResult.ofJson? (j : Json) : Option CombinationResult :=
  match j with
  | object members => do
    let ms ← fields? ["factor_details"] j
    return {
      result := ← BacktestResult.ofJson? (object members)
      factorDetails := ← field? ms "factor_details" (asList? FactorDetail.ofJson?) }
  | _ => none

def ReportData.toJson : ReportData → Json
  | single r => r.toJson
  | combination c => c.toJson

/-- The deepest nesting of a report, its own object included, is one less than this. -/
def ReportData.nestingLimit : Nat := 128

/-- A combination if it can be read as one, else a single result. -/
def ReportData.ofJson? (j : Json) : Option ReportData :=
  if j.inRange && j.depth + 1 < nestingLimit then
    ((CombinationResult.ofJson? j).map combination).or ((BacktestResult.ofJson? j).map single)
  else none

/-- A time as it stands in reports, with the letter for universal time. -/
def Timestamp.reportText (t : Timestamp) : String := t.isoText ++ "Z"

def Report.fieldNames : List String :=
  ["id", "name", "description", "expression", "timestamp", "data"]

def Report.toJson (r : Report) : Json :=
  object [("id", string r.id), ("name", string r.name), ("description", string r.description),
    ("expression", ofOption string r.expression), ("timestamp", string r.timestamp.reportText),
    ("data", r.data.toJson)]

def Report.ofJson? (j : Json) : Option Report := do
  let ms ← fields? fieldNames j
  return {
    id := ← field? ms "id" asString?
    name := ← field? ms "name" asString?
    description := ← field? ms "description" asString?
    expression := ← optionalField? ms "expression" asString?
    timestamp := ← (← field? ms "timestamp" asString?) |> Timestamp.readReport?
    data := ← field? ms "data" ReportData.ofJson? }

/-- The report in a JSON text. -/
def Report.read (text : String) : Outcome Report :=
  match (Json.readWanted? (.members fieldNames) text).bind Report.ofJson? with
  | some r => .ok r
  | none => .error .serialization

def ReportSummary.toJson (s : ReportSummary) : Json :=
  object [("id", string s.id), ("name", string s.name), ("description", string s.description),
    ("expression", ofOption string s.expression), ("timestamp", string s.timestamp.reportText),
    ("score", ofDouble s.score), ("ic_mean", ofDouble s.icMean), ("sharpe", ofDouble s.sharpe),
    ("sortino", ofDouble s.sortino), ("win_rate", ofDouble s.winRate),
    ("is_valid_factor", bool s.isValidFactor), ("rank", ofCount s.rank)]

end FactorStudy
