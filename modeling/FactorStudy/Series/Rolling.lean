import FactorStudy.Series.Basic

/-!
# Trailing windows of one series

The value at a bar summarizes the `n` bars that end there. The first `n - 1` bars have no complete
window, and a window with an undefined entry has no value.
-/

namespace FactorStudy.Series

open Number

variable {α : Type} [Number α]

/-- The `n` entries that end at position `i`, if there are so many. -/
def trailing? (x : List α) (n i : Nat) : Option (List α) :=
  if 1 ≤ n ∧ n ≤ i + 1 then some ((x.drop (i + 1 - n)).take n) else none

/-- A statistic of a window all of whose entries are defined. -/
def onWindow (f : List α → α) (w : List α) : α := if w.any isNaN then nan else orNaN (f w)

/-- A statistic of every trailing window of `n` entries. -/
def rolling (f : List α → α) (x : List α) (n : Nat) : List α :=
  (List.range x.length).map fun i => ((trailing? x n i).map (onWindow f)).getD nan

/-- The greatest value. -/
def greatest (w : List α) : α := w.foldl larger (-infinity)

/-- The least value. -/
def least (w : List α) : α := w.foldl smaller infinity

def median (w : List α) : α := (percentile? (ascending w) 0.5).getD nan

/-- The newest value of a window. -/
def newest (w : List α) : α := w.getLastD nan

/-- The place of the newest value among the window's, from 0 for the least to 1 for the greatest;
equal values share their mean place, and a single value stands in the middle. -/
def rankOfNewest (w : List α) : α :=
  if w.length < 2 then 0.5
  else
    let current := newest w
    let less : α := ofNat (w.countP fun v => v < current)
    let equal : α := ofNat (w.countP fun v => v == current)
    let place := less + (equal + 1) / 2
    (place - 1) / ofNat (w.length - 1)

/-- A mean of powers of the deviations from the mean. -/
def centralMoment (power : α → α) (w : List α) : α :=
  let m := average w
  sum (w.map fun v => power (v - m)) / count w

def square (a : α) : α := a * a

def cube (a : α) : α := a * a * a

def fourth (a : α) : α := square a * square a

/-- Whether the deviations of a window are no more than the rounding of its mean. -/
def isFlat (w : List α) : Bool :=
  centralMoment square w ≤ epsilon * larger (abs (average w)) 1

/-- The adjusted sample skewness, of at least three values that are not flat. -/
def skewness (w : List α) : α :=
  if w.length < 3 ∨ isFlat w then nan
  else
    let n : α := count w
    let g := centralMoment cube w / pow (centralMoment square w) 1.5
    g * sqrt (n * (n - 1)) / (n - 2)

/-- The bias-corrected sample excess kurtosis, of at least four values that are not flat. -/
def kurtosis (w : List α) : α :=
  if w.length < 4 ∨ isFlat w then nan
  else
    let n : α := count w
    let m2 := centralMoment square w
    let g := centralMoment fourth w / (m2 * m2) - 3
    ((n + 1) * g + 6) * (n - 1) / ((n - 2) * (n - 3))

/-- The position of the first entry that no other one beats. -/
def firstBest (beats : α → α → Bool) : List α → Nat
  | [] => 0
  | v :: rest =>
    ((rest.zipIdx 1).foldl (fun best p => if beats p.1 best.1 then p else best) (v, 0)).2

/-- The position of the first maximum; the oldest entry has position 0. -/
def offsetOfMax (w : List α) : α := ofNat (firstBest (fun a b => b < a) w)

/-- The position of the first minimum. -/
def offsetOfMin (w : List α) : α := ofNat (firstBest (fun a b => a < b) w)

/-- The deviation of the newest value from the mean in standard deviations. -/
def zscoreOfNewest (w : List α) : α :=
  match std? w with
  | some sd => if 0 < sd then (newest w - average w) / sd else nan
  | none => nan

/-- The standard deviation of a window, undefined for a single value. -/
def windowStd (w : List α) : α := (std? w).getD nan

/-- The variance of a window, undefined for a single value. -/
def windowVariance (w : List α) : α := (variance? w).getD nan

end FactorStudy.Series
