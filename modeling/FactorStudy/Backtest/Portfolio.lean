import FactorStudy.Backtest.Layers

/-!
# How a portfolio did

Figures of a portfolio from its equity curve and from the returns of the periods in which it held a
position. Every figure that could overflow is replaced by 0 if it does.
-/

namespace FactorStudy

open Number Series

variable {α : Type} [Number α]

/-- The figures of a portfolio. -/
structure PortfolioStats (α : Type) where
  totalReturn : α
  annualizedReturn : α
  annualizedVol : α
  sharpe : α
  sortino : α
  calmar : α
  maxDrawdown : α
  winRate : α
  profitFactor : α
  avgWin : α
  avgLoss : α
  numTrades : Nat

namespace Portfolio

/-- The greatest profit factor that is reported. -/
def profitFactorCap : α := 99.9

/-- The profit factor of a portfolio that never lost. -/
def profitFactorWithoutLosses : α := 10

def wins (active : List α) : List α := active.filter fun r => 0 < r

def losses (active : List α) : List α := active.filter fun r => r < 0

/-- Wins over losses, capped. -/
def profitFactor (active : List α) : α :=
  let lost := abs (sum (losses active))
  smaller (if 0 < lost then sum (wins active) / lost else profitFactorWithoutLosses)
    profitFactorCap

/-- The growth over a year that gives `total` in `periods` periods. -/
def annualized (total : α) (periods : Nat) (annualization : α) : α :=
  let years := ofNat periods / annualization
  if 0 < years ∧ 0 < 1 + total then pow (1 + total) (1 / years) - 1 else 0

/-- The figures of a portfolio. `active` are the returns of the periods with a position. -/
def stats (equity drawdown active : List α) (annualization : α) : PortfolioStats α :=
  let totalReturn := (equity.getLast?.map (· - 1)).getD 0
  let annualizedReturn := annualized totalReturn equity.length annualization
  let maxDrawdown := drawdown.foldl smaller 0
  let mean := (mean? active).getD 0
  { totalReturn := orZero totalReturn
    annualizedReturn := orZero annualizedReturn
    annualizedVol := orZero ((std? active).getD 0 * sqrt annualization)
    sharpe := orZero (Layers.riskAdjusted mean (std? active) annualization)
    sortino := orZero (Layers.riskAdjusted mean (std? (losses active)) annualization)
    calmar := orZero (if maxDrawdown != 0 then annualizedReturn / abs maxDrawdown else 0)
    maxDrawdown := orZero maxDrawdown
    winRate := if active.isEmpty then 0.5 else ofNat (wins active).length / count active
    profitFactor := orZero (profitFactor active)
    avgWin := (mean? (wins active)).getD 0
    avgLoss := (mean? (losses active)).getD 0
    numTrades := active.length }

end Portfolio

end FactorStudy
