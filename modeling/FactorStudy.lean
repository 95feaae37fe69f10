import FactorStudy.Main
import FactorStudy.Study.Memory
import FactorStudy.Proofs.Evaluation.Prefix
import FactorStudy.Proofs.Grammar.Phrase
import FactorStudy.Proofs.Grammar.Token
import FactorStudy.Proofs.Grammar.Number
import FactorStudy.Proofs.Grammar.Reader
import FactorStudy.Proofs.Grammar.Sound
import FactorStudy.Proofs.Grammar.Seam
import FactorStudy.Proofs.Grammar.Complete
import FactorStudy.Proofs.Grammar.Unique
import FactorStudy.Proofs.Grammar.Parse
import FactorStudy.Proofs.Grammar.Position
import FactorStudy.Proofs.Grammar.Longest
import FactorStudy.Proofs.Grammar.Layout
import FactorStudy.Proofs.Double.Operations
import FactorStudy.Proofs.Decimal.Nearest
import FactorStudy.Proofs.Decimal.Shortest
import FactorStudy.Proofs.Decimal.Text
import FactorStudy.Proofs.Grammar.Printed
import FactorStudy.Proofs.Grammar.RoundTrip
import FactorStudy.Proofs.Grammar.Counted
import FactorStudy.Proofs.Grammar.Depth
import FactorStudy.Proofs.Grammar.Cursor
import FactorStudy.Proofs.Grammar.Boundary
import FactorStudy.Proofs.Double.Undefined
import FactorStudy.Proofs.Evaluation.Accepted
import FactorStudy.Proofs.Evaluation.Definedness
import FactorStudy.Proofs.Evaluation.History
import FactorStudy.Proofs.Backtest.Layering
import FactorStudy.Proofs.Backtest.Observations
import FactorStudy.Proofs.Double.Multiples
import FactorStudy.Proofs.Backtest.Legs
import FactorStudy.Proofs.Backtest.Course
import FactorStudy.Proofs.Double.Monotone
import FactorStudy.Proofs.Double.Finite
import FactorStudy.Proofs.Report.Numbers
import FactorStudy.Proofs.Stats.Score
import FactorStudy.Proofs.Backtest.Figures
import FactorStudy.Proofs.Outcome
import FactorStudy.Proofs.Evaluation.Nodes
import FactorStudy.Proofs.Study.Requests
import FactorStudy.Proofs.Study.Attribution
import FactorStudy.Proofs.Decimal.Whole
import FactorStudy.Proofs.Grammar.Written
import FactorStudy.Proofs.Evaluation.Safety
import FactorStudy.Proofs.Evaluation.Policies
import FactorStudy.Proofs.Time.ColumnText
import FactorStudy.Proofs.Database.Table
import FactorStudy.Proofs.Database.Range
import FactorStudy.Proofs.Database.Insertions
import FactorStudy.Proofs.Database.Reports
import FactorStudy.Proofs.Decimal.Compact
import FactorStudy.Proofs.Json.Token
import FactorStudy.Proofs.Json.Layout
import FactorStudy.Proofs.Time.Calendar
import FactorStudy.Proofs.Time.ReportText
import FactorStudy.Proofs.Report.ReadBack
import FactorStudy.Proofs.Files.Folder
import FactorStudy.Proofs.Files.Path
import FactorStudy.Proofs.Report.Shelf
import FactorStudy.Proofs.Report.Folder
import FactorStudy.Proofs.Report.Ranking
import FactorStudy.Proofs.Report.Interchange
import FactorStudy.Proofs.Backtest.Rescaling
import FactorStudy.Proofs.Double.Value
import FactorStudy.Proofs.Double.TotalOrder
import FactorStudy.Proofs.Backtest.Mirror
import FactorStudy.Proofs.Double.Neighbours
import FactorStudy.Proofs.Series.Percentile
import FactorStudy.Proofs.Series.Winsorize
import FactorStudy.Proofs.Backtest.Frequency
import FactorStudy.Proofs.Backtest.Ties
import FactorStudy.Proofs.Double.Roots
import FactorStudy.Proofs.Double.Reach
import FactorStudy.Proofs.Series.Flat
import FactorStudy.Proofs.Evaluation.Windowed
import FactorStudy.Proofs.Backtest.Returns
import FactorStudy.Proofs.Unrounded.Basic
import FactorStudy.Proofs.Unrounded.Gaps
import FactorStudy.Proofs.Backtest.Drawdown
import FactorStudy.Proofs.Stats.ScoreOrder
import FactorStudy.Proofs.Stats.ScoreRange
import FactorStudy.Proofs.Csv.Listing
import FactorStudy.Proofs.Csv.Rows
import FactorStudy.Proofs.Csv.Ranges
import FactorStudy.Proofs.Series.Ranks
import FactorStudy.Proofs.Backtest.Monotonic
import FactorStudy.Proofs.Evaluation.Clean
import FactorStudy.Proofs.Series.Identities
import FactorStudy.Proofs.Evaluation.Identities
import FactorStudy.Proofs.Series.Moments
import FactorStudy.Proofs.Double.Within
import FactorStudy.Proofs.Evaluation.StandardScore
import FactorStudy.Proofs.Stats.RollingIc
import FactorStudy.Proofs.Stats.Monthly
import FactorStudy.Proofs.Study.Combination
import FactorStudy.Proofs.Stats.Histogram
import FactorStudy.Proofs.Series.Standardize
import FactorStudy.Proofs.Evaluation.Operands
import FactorStudy.Proofs.Series.Interpolation
import FactorStudy.Proofs.Series.Extremes
