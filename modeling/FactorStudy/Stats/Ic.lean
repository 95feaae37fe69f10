import FactorStudy.Double
import FactorStudy.Series.Pairwise
import FactorStudy.Time.Timestamp

/-!
# Information coefficients

The information coefficient (IC) is the correlation of a factor with the return that follows it. It
is taken over trailing windows of the observations and over calendar months, and summarized by its
mean, its spread and a t-test of the mean against 0.

The test reads its probability off a t-distribution. Everything is stated over any such
distribution (`TDistribution`), and the program chooses one (`Stats/StudentT`).
-/

namespace FactorStudy

open Number Series

variable {α : Type} [Number α]

/-- The successive results of folding a list. -/
def accumulate {β : Type} (f : β → α → β) : β → List α → List β
  | _, [] => []
  | state, v :: x => f state v :: accumulate f (f state v) x

/-- A t-distribution, as far as a test needs one. -/
class TDistribution where
  /-- The probability that a quantity with the given degrees of freedom lies at least `t` from 0 on
  either side. -/
  twoTailed (freedom t : Float) : Float

namespace Ic

/-- The correlation over each trailing window of at least two observations. -/
def rolling (factor returns : List α) (window : Nat) : List α :=
  (List.range (min factor.length returns.length)).map fun i =>
    if window < 2 then nan
    else
      match trailing? factor window i, trailing? returns window i with
      | some f, some r => correlation f r
      | _, _ => nan

/-- The value, or 0 where it is undefined. -/
def orNothing (v : α) : α := if isNaN v then 0 else v

/-- The mean over the standard deviation, unless the window is flat. -/
def ratio (w : List α) : α :=
  match mean? w, std? w with
  | some m, some sd => if 0 < sd then m / sd else nan
  | _, _ => nan

/-- Mean over standard deviation of each trailing window of at least two values, undefined values
counting as 0. -/
def rollingRatio (ic : List α) (window : Nat) : List α :=
  let filled := ic.map orNothing
  (List.range filled.length).map fun i =>
    if window < 2 then nan else ((trailing? filled window i).map ratio).getD nan

/-- The running sum, undefined values counting as nothing. -/
def cumulative (ic : List α) : List α :=
  accumulate (fun total v => if isNaN v then total else total + v) 0 ic

/-- The mean, spread and significance of an IC series. -/
structure Summary where
  mean : Float
  std : Float
  ratio : Float
  tStat : Float
  pValue : Float
  positiveShare : Float
  /-- The number of defined values. -/
  count : Nat

/-- A one-sample t-test of a mean of `n` values against 0: the statistic and the probability of
one as far from 0. Without spread there is no evidence. -/
def tTest [TDistribution] (mean std : Float) (n : Nat) : Float × Float :=
  if n < 2 ∨ ¬ (0 < std) then (0, 1)
  else
    let t := mean / (std / Float.sqrt (ofNat n))
    if t.isFinite then (t, clamp 0 1 (TDistribution.twoTailed (ofNat (n - 1)) t.abs)) else (0, 1)

def summary [TDistribution] (ic : List Float) : Summary :=
  let values := defined ic
  let mean := (mean? values).getD 0
  let std := (std? values).getD 0
  let (t, p) := tTest mean std values.length
  { mean := orZero mean
    std := orZero std
    ratio := orZero (if 0 < std then mean / std else 0)
    tStat := t
    pValue := p
    positiveShare :=
      if values.isEmpty then 0 else ofNat (values.countP fun v => 0 < v) / count values
    count := values.length }

/-- The share of successive entries that differ. -/
def turnover (inTop : List Bool) : α :=
  if inTop.length < 2 then 0
  else
    ofNat ((inTop.zip inTop.tail).countP fun (a, b) => a != b) / ofNat (inTop.length - 1)

/-- The correlation of each value with the next, over the pairs that are defined, 0 where there is
none. -/
def autocorrelation (x : List α) : α :=
  let pairs := (x.zip x.tail).filter fun (a, b) => !isNaN a && !isNaN b
  (pearson? (pairs.map (·.1)) (pairs.map (·.2))).getD 0

/-- An observation for the monthly IC. -/
structure Sample (α : Type) where
  timestamp : Timestamp
  factor : α
  forward : α

/-- The calendar month of a sample. -/
def Sample.month (s : Sample α) : Int × Nat := (s.timestamp.date.year, s.timestamp.date.month)

/-- The rank correlation of each run of samples of one month that has enough of them. -/
def monthly (timestamps : List Timestamp) (factor returns : List α) (least : Nat) :
    List ((Int × Nat) × α) :=
  let samples := (timestamps.zip (factor.zip returns)).map fun (t, f, r) => Sample.mk t f r
  (samples.splitBy fun a b => a.month == b.month).filterMap fun run =>
    match run with
    | [] => none
    | first :: _ =>
      if run.length < least then none
      else (spearman? (run.map (·.factor)) (run.map (·.forward))).map fun ic => (first.month, ic)

/-- A month as year and month; a negative sign takes up one of the year's four places. -/
def monthText (month : Int × Nat) : String :=
  (if month.1 < 0 then "-" ++ Timestamp.padded 3 month.1.natAbs
   else Timestamp.padded 4 month.1.natAbs) ++ "-" ++ Timestamp.padded 2 month.2

end Ic

end FactorStudy
