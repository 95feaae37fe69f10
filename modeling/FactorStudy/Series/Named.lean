import FactorStudy.Series.Pointwise
import FactorStudy.Series.Pairwise
import FactorStudy.Series.Transform
import FactorStudy.Expr.Basic

/-!
# The built-in functions on series

What each name of the function library computes.
-/

namespace FactorStudy

open Series Number

variable {α : Type} [Number α]

def Shift.apply : Shift → List α → Nat → List α
  | .delay => Series.delay
  | .delta => Series.delta
  | .returns | .pctChange => Series.returns

/-- The statistic a rolling function takes of each window. -/
def Rolling.statistic : Rolling → List α → α
  | .mean => average
  | .sum => Number.sum
  | .std => windowStd
  | .var => windowVariance
  | .max => greatest
  | .min => least
  | .median => Series.median
  | .rank => rankOfNewest
  | .skew => skewness
  | .kurt => kurtosis
  | .argmax => offsetOfMax
  | .argmin => offsetOfMin
  | .zscore => zscoreOfNewest

def Rolling.apply (f : Rolling) : List α → Nat → List α := rolling f.statistic

/-- The statistic a pairwise function takes of each two windows. -/
def Pairwise.statistic : Pairwise → List α → List α → α
  | .corr => correlation
  | .cov => covariance

def Pairwise.apply (f : Pairwise) : List α → List α → Nat → List α := rollingPair f.statistic

def Transform.apply : Transform → List α → List α
  | .winsorize => Series.winsorize
  | .standardize => Series.standardize
  | .normalize => Series.normalize
  | .demean => Series.demean
  | .rank => Series.rank

/-- The function of one value behind a pointwise function. -/
def Pointwise.function : Pointwise → α → α
  | .log => onPositive Number.log
  | .log10 => onPositive Number.log10
  | .exp => Number.exp
  | .sqrt => onPositive Number.sqrt
  | .abs => Number.abs
  | .sign => signOf

def Pointwise.apply (f : Pointwise) : List α → List α := Series.map f.function

def Merge.apply : Merge → List α → List α → List α
  | .max => Series.zipWith larger
  | .min => Series.zipWith smaller
  | .fillna => Series.fill

/-- The function of two values behind an operator. -/
def BinaryOp.function : BinaryOp → α → α → α
  | .add => (· + ·)
  | .sub => (· - ·)
  | .mul => (· * ·)
  | .div => (· / ·)
  | .pow => Number.pow

def BinaryOp.apply (op : BinaryOp) : List α → List α → List α := Series.zipWith op.function

/-- A function on its series arguments, of which it takes the first one or two, and its window. -/
def Builtin.apply (f : Builtin) (series : List (List α)) (n : Nat) : List α :=
  let x := series.getD 0 []
  let y := series.getD 1 []
  match f with
  | .shift f => f.apply x n
  | .rolling f => f.apply x n
  | .pairwise f => f.apply x y n
  | .transform f => f.apply x
  | .pointwise f => f.apply x
  | .merge f => f.apply x y

/-- Whether a function stops the program on its series instead of returning. -/
def Builtin.aborts (f : Builtin) (series : List (List α)) : Bool :=
  match f with
  | .transform .winsorize => limitsCross (series.getD 0 [])
  | _ => false

end FactorStudy
