import FactorStudy.Series.Rolling

/-!
# Trailing windows of two series

The two series are read bar by bar, as far as both go.
-/

namespace FactorStudy.Series

open Number

variable {α : Type} [Number α]

/-- A statistic of two windows all of whose entries are defined. -/
def onWindows (f : List α → List α → α) (wx wy : List α) : α :=
  if wx.any isNaN || wy.any isNaN then nan else orNaN (f wx wy)

/-- A statistic of every pair of trailing windows of `n` entries. -/
def rollingPair (f : List α → List α → α) (x y : List α) (n : Nat) : List α :=
  (List.range (min x.length y.length)).map fun i =>
    match trailing? x n i, trailing? y n i with
    | some wx, some wy => onWindows f wx wy
    | _, _ => nan

/-- The correlation of two windows, undefined when either is flat. -/
def correlation (wx wy : List α) : α := (pearson? wx wy).getD nan

/-- The sample covariance of two windows, undefined for a single value. -/
def covariance (wx wy : List α) : α :=
  if wx.length < 2 then nan
  else
    let mx := average wx
    let my := average wy
    sum (wx.zipWith (fun a b => (a - mx) * (b - my)) wy) / ofNat (wx.length - 1)

end FactorStudy.Series
