import FactorStudy.Double

/-!
# The composite score

Five measures of a factor, each scaled to run from 0 to 1, are averaged with weights into a score
from 0 to 100. A policy says how the measures are weighted and at which values they saturate.
-/

namespace FactorStudy

open Number

/-- The weights and the saturation points of the score. -/
structure ScorePolicy (α : Type) where
  wIc : α
  wIcir : α
  wSharpe : α
  wWinRate : α
  wDrawdown : α
  /-- The absolute mean IC with the full contribution. -/
  icFull : α
  icirFull : α
  sharpeFull : α
  /-- The win rate without contribution. -/
  winRateFloor : α
  winRateFull : α
  /-- The absolute drawdown without contribution. -/
  drawdownZero : α

/-- Why a policy makes no sense; where it is one value, the name of its setting. -/
inductive PolicyFault where
  | weight (name : String)
  | noWeight
  | saturation (name : String)
  | winRates
deriving Repr, DecidableEq

namespace PolicyFault

/-- The setting to mend. -/
def key : PolicyFault → String
  | weight name | saturation name => name
  | noWeight => "w_ic"
  | winRates => "win_rate_full"

def message : PolicyFault → String
  | weight _ => "weight must be non-negative"
  | noWeight => "at least one weight must be positive"
  | saturation _ => "saturation point must be positive"
  | winRates => "win_rate_full must be greater than win_rate_floor"

end PolicyFault

namespace ScorePolicy

variable {α : Type} [Number α]

def standard : ScorePolicy α where
  wIc := 30
  wIcir := 20
  wSharpe := 25
  wWinRate := 15
  wDrawdown := 10
  icFull := 0.05
  icirFull := 0.5
  sharpeFull := 1.5
  winRateFloor := 0.45
  winRateFull := 0.60
  drawdownZero := 0.5

def weights (p : ScorePolicy α) : List α := [p.wIc, p.wIcir, p.wSharpe, p.wWinRate, p.wDrawdown]

/-- The weights with the names of their settings. -/
def namedWeights (p : ScorePolicy α) : List (String × α) :=
  ["w_ic", "w_icir", "w_sharpe", "w_win_rate", "w_drawdown"].zip p.weights

/-- The saturation points that must be positive, with the names of their settings. -/
def namedPoints (p : ScorePolicy α) : List (String × α) :=
  [("ic_full", p.icFull), ("icir_full", p.icirFull), ("sharpe_full", p.sharpeFull),
    ("drawdown_zero", p.drawdownZero)]

/-- The first fault of a policy: weights, their sum, saturation points, win rates. -/
def validate (p : ScorePolicy α) : Except PolicyFault Unit :=
  match p.namedWeights.find? fun (_, w) => !isFinite w || decide (w < 0) with
  | some (name, _) => .error (.weight name)
  | none =>
    if sum p.weights ≤ 0 then .error .noWeight
    else
      match p.namedPoints.find? fun (_, v) => !(isFinite v && decide (0 < v)) with
      | some (name, _) => .error (.saturation name)
      | none => if p.winRateFloor < p.winRateFull then .ok () else .error .winRates

end ScorePolicy

namespace Score

variable {α : Type} [Number α]

/-- The measures of a factor that the score is made of. -/
structure Measures (α : Type) where
  icMean : α
  icRatio : α
  sharpe : α
  winRate : α
  maxDrawdown : α

/-- A contribution between 0 and 1. -/
def unit (v : α) : α := if isFinite v then clamp 0 1 v else 0

/-- The five contributions, in the order of the weights. -/
def contributions (m : Measures α) (p : ScorePolicy α) : List α :=
  [unit (abs m.icMean / p.icFull), unit (abs m.icRatio / p.icirFull),
    unit (m.sharpe / p.sharpeFull),
    unit ((m.winRate - p.winRateFloor) / (p.winRateFull - p.winRateFloor)),
    unit (1 - abs m.maxDrawdown / p.drawdownZero)]

/-- The weighted mean of the contributions, out of 100. -/
def composite (m : Measures α) (p : ScorePolicy α) : α :=
  let total := sum p.weights
  if 0 < total then
    clamp 0 100 (100 * sum (p.weights.zipWith (· * ·) (contributions m p)) / total)
  else 0

end Score

end FactorStudy
