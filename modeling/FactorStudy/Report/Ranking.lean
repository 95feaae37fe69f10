import FactorStudy.Report.Basic
import FactorStudy.Text.Basic

/-!
# Ranking reports

Reports are ranked by the size of a figure, whatever its sign, or by age with the newest first.
Reports that are equal in that respect keep their order.
-/

namespace FactorStudy

/-- What reports are ranked by. -/
inductive SortKey where
  | score | icMean | sharpe | sortino | winRate | timestamp
deriving Repr, DecidableEq

namespace SortKey

def name : SortKey → String
  | score => "score"
  | icMean => "ic_mean"
  | sharpe => "sharpe"
  | sortino => "sortino"
  | winRate => "win_rate"
  | timestamp => "timestamp"

def all : List SortKey := [score, icMean, sharpe, sortino, winRate, timestamp]

/-- The key of a name, with or without blanks around it; the score for any other text. -/
def ofText (s : String) : SortKey :=
  let trimmed := String.ofList (Text.trimBlank s.toList)
  (all.find? fun k => k.name == trimmed).getD score

/-- A number that orders summaries from the last to the first: a figure's size in the total order,
in which an undefined figure is the greatest, or the time. -/
def weight (k : SortKey) (s : ReportSummary) : Int :=
  match k with
  | score => totalOrderKey s.score.abs
  | icMean => totalOrderKey s.icMean.abs
  | sharpe => totalOrderKey s.sharpe.abs
  | sortino => totalOrderKey s.sortino.abs
  | winRate => totalOrderKey s.winRate.abs
  | timestamp => s.timestamp.key

/-- Whether a summary may stand before another. -/
def before (k : SortKey) (a b : ReportSummary) : Bool := decide (k.weight b ≤ k.weight a)

end SortKey

/-- Numbers summaries from 1. -/
def numbered (summaries : List ReportSummary) : List ReportSummary :=
  summaries.zipIdx.map fun (s, i) => { s with rank := i + 1 }

/-- The summaries ranked by a key. -/
def rankSummaries (summaries : List ReportSummary) (key : SortKey) : List ReportSummary :=
  numbered (summaries.mergeSort key.before)

/-- The head of a ranked list, and the length of the whole list. -/
structure Rankings where
  total : Nat
  reports : List ReportSummary

/-- The first summaries of a ranked list, all of them without a limit. -/
def Rankings.top (summaries : List ReportSummary) (limit : Option Nat) : Rankings where
  total := summaries.length
  reports :=
    match limit with
    | some n => summaries.take n
    | none => summaries

end FactorStudy
