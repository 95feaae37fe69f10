import FactorStudy.Study.Result

/-!
# Reports

A report is a result that is kept: under an id, with a name and a time. Lists of reports show
summaries, ranked by one of their figures.
-/

namespace FactorStudy

/-- The result in a report. -/
inductive ReportData where
  | single (result : BacktestResult)
  | combination (result : CombinationResult)

def ReportData.metrics : ReportData → Metrics
  | single r => r.metrics
  | combination c => c.result.metrics

structure Report where
  id : String
  name : String
  description : String
  /-- The expression of a single factor. -/
  expression : Option String
  /-- In universal time. -/
  timestamp : Timestamp
  data : ReportData

/-- What a list shows of a report. -/
structure ReportSummary where
  id : String
  name : String
  description : String
  expression : Option String
  timestamp : Timestamp
  score : Float
  icMean : Float
  sharpe : Float
  sortino : Float
  winRate : Float
  isValidFactor : Bool
  /-- The place in a ranked list, from 1; 0 outside of one. -/
  rank : Nat

def Report.summary (r : Report) : ReportSummary where
  id := r.id
  name := r.name
  description := r.description
  expression := r.expression
  timestamp := r.timestamp
  score := r.data.metrics.score
  icMean := r.data.metrics.icMean
  sharpe := r.data.metrics.sharpe
  sortino := r.data.metrics.sortino
  winRate := r.data.metrics.winRate
  isValidFactor := r.data.metrics.isValidFactor
  rank := 0

end FactorStudy
