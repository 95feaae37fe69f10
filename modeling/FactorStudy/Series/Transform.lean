import FactorStudy.Series.Pointwise
import FactorStudy.Series.Rolling

/-!
# Functions of the series as a whole

These take their statistics from all the defined entries, later ones included, so a value can
change when bars are added after it. Undefined entries stay where they are.
-/

namespace FactorStudy.Series

open Number

variable {α : Type} [Number α]

/-- No value at any bar. -/
def nowhere (x : List α) : List α := x.map fun _ => nan

/-- The 1st and the 99th percentile of the defined entries, of at least one. -/
def limits? (x : List α) : Option (α × α) := do
  let sorted := ascending (defined x)
  return (← percentile? sorted 0.01, ← percentile? sorted 0.99)

/-- Whether the limits are out of order, so that there is nothing between them. -/
def limitsCross (x : List α) : Bool := (limits? x).any fun (lo, hi) => !decide (lo ≤ hi)

/-- The values moved between the limits. Limits that cross stop the program (`Builtin.aborts`). -/
def winsorize (x : List α) : List α :=
  match limits? x with
  | some (lo, hi) => map (clamp lo hi) x
  | none => nowhere x

/-- Deviations from the mean in standard deviations; nowhere defined for flat data. -/
def standardize (x : List α) : List α :=
  let values := defined x
  match mean? values, std? values with
  | some m, some sd => if 0 < sd then map (fun v => (v - m) / sd) x else nowhere x
  | _, _ => nowhere x

/-- The values scaled to run from 0 to 1; nowhere defined for flat data. -/
def normalize (x : List α) : List α :=
  let lo := least (defined x)
  let range := greatest (defined x) - lo
  if isFinite range ∧ 0 < range then map (fun v => (v - lo) / range) x else nowhere x

/-- Deviations from the mean. -/
def demean (x : List α) : List α :=
  match mean? (defined x) with
  | some m => map (· - m) x
  | none => nowhere x

/-- Puts values, in order, at the defined places of a series. -/
def refill : List α → List α → List α
  | [], _ => []
  | v :: x, values =>
    if isNaN v then nan :: refill x values
    else
      match values with
      | r :: values => r :: refill x values
      | [] => nan :: refill x []

/-- Ranks over the number of defined entries, so that the greatest value has 1. -/
def rank (x : List α) : List α :=
  let values := defined x
  refill x ((averageRanks values).map (· / count values))

end FactorStudy.Series
