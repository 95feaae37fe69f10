import FactorStudy.Backtest.Returns

/-!
# Layers

Observations are sorted by their factor and cut into layers of equal frequency, layer 0 with the
least values. Values that compare equal in the total order keep their order in time, so the earlier
one is in the lower layer if a cut falls between them.
-/

namespace FactorStudy

open Number Series

variable {α : Type} [Number α]

namespace Layers

/-- The positions of the values in ascending order, ties in the order in which they stand. -/
def order (values : List α) : List Nat :=
  (values.zipIdx.mergeSort fun p q => totalLe p.1 q.1).map (·.2)

/-- The layer of each value. -/
def assign (values : List α) (quantiles : Nat) : List Nat :=
  let placed := (order values).zipIdx.map fun (i, rank) => (i, rank * quantiles / values.length)
  (placed.mergeSort fun p q => decide (p.1 ≤ q.1)).map (·.2)

end Layers

/-- A bar at which both the factor and the forward return are defined. -/
structure Observation (α : Type) where
  /-- The position in the panel. -/
  index : Nat
  factor : α
  forward : α
  layer : Nat

/-- How the forward returns of one layer turned out. -/
structure LayerSummary (α : Type) where
  /-- The number of the layer, from 1. -/
  layer : Nat
  meanReturn : α
  totalReturn : α
  sharpe : α
  winRate : α
  count : Nat

namespace Layers

/-- The share of positive returns, of at least one. -/
def winRate (returns : List α) : α := ofNat (returns.countP fun r => 0 < r) / count returns

/-- The mean over the standard deviation, annualized, or 0 for flat returns. -/
def riskAdjusted (mean : α) (spread : Option α) (annualization : α) : α :=
  match spread with
  | some sd => if 0 < sd then mean / sd * sqrt annualization else 0
  | none => 0

/-- The summary of layer `layer`, counted from 0. -/
def summary (observations : List (Observation α)) (annualization : α) (layer : Nat) :
    LayerSummary α :=
  let returns := (observations.filter fun o => o.layer == layer).map (·.forward)
  let mean := (mean? returns).getD 0
  { layer := layer + 1
    meanReturn := orZero mean
    totalReturn := orZero (returns.foldl (fun equity r => equity * (1 + r)) 1 - 1)
    sharpe := orZero (riskAdjusted mean (std? returns) annualization)
    winRate := if returns.isEmpty then 0 else winRate returns
    count := returns.length }

/-- Whether the mean returns of the layers that are not empty, at least two, rise throughout or
fall throughout. -/
def isMonotonic (layers : List (LayerSummary α)) : Bool :=
  let means := (layers.filter fun l => 0 < l.count).map (·.meanReturn)
  let steps := means.zip means.tail
  2 ≤ means.length
    && (steps.all (fun (a, b) => decide (a ≤ b)) || steps.all fun (a, b) => decide (b ≤ a))

end Layers

end FactorStudy
