import FactorStudy.Series.Basic

/-!
# One bar at a time

A value computed from an undefined value is undefined, and so is one outside a function's domain or
too large. The one exception is `fill`, which is there to replace undefined values.

A bar can also be compared with the one some bars ago. The first `n` bars have nothing to look back
to; a shift of 0 looks at the bar itself.
-/

namespace FactorStudy.Series

open Number

variable {α : Type} [Number α]

/-- A function of a value, undefined where the value is. -/
def strict (f : α → α) (v : α) : α := if isNaN v then nan else orNaN (f v)

/-- A function of two values, undefined where either is. -/
def strict₂ (f : α → α → α) (v w : α) : α := if isNaN v || isNaN w then nan else orNaN (f v w)

def map (f : α → α) (x : List α) : List α := x.map (strict f)

/-- Two series bar by bar, as far as both go. -/
def zipWith (f : α → α → α) (x y : List α) : List α := x.zipWith (strict₂ f) y

def negate (x : List α) : List α := map (- ·) x

/-- A function of positive values only. -/
def onPositive (f : α → α) (v : α) : α := if 0 < v then f v else nan

/-- 1, -1 or 0. -/
def signOf (v : α) : α := if 0 < v then 1 else if v < 0 then -1 else 0

/-- The first series, with the second where it is undefined. -/
def fill (x y : List α) : List α := x.zipWith (fun v w => orNaN (if isNaN v then w else v)) y

/-! ## Looking back -/

/-- The value `n` bars ago. -/
def delay (x : List α) (n : Nat) : List α :=
  (List.range x.length).map fun i => if n ≤ i then x.getD (i - n) nan else nan

/-- The change over `n` bars. -/
def delta (x : List α) (n : Nat) : List α :=
  x.zipWith (fun a b => orNaN (a - b)) (delay x n)

/-- The relative change from a base; a base of 0 has none. -/
def relativeChange (value base : α) : α :=
  if base == 0 then nan else orNaN (value / base - 1)

/-- The relative change over `n` bars. -/
def returns (x : List α) (n : Nat) : List α := x.zipWith relativeChange (delay x n)

end FactorStudy.Series
