import FactorStudy.Series.Pointwise
import FactorStudy.Stats.Ic

/-!
# Returns and what they compound to

A return runs from a bar to the one a horizon later. Positions and horizons are machine words, and
their sum is one too: where it passes the greatest word it wraps around. What a program does there
depends on how it was built. Without checks on its arithmetic, as here, it goes on with the earlier
bar that the sum has come to (`forward`); with them it stops (`checkedForward?`).
-/

namespace FactorStudy.Returns

open Number Series

variable {α : Type} [Number α]

/-- A count or a position as a machine word. -/
instance coeNatUInt64 : Coe Nat UInt64 := ⟨Nat.toUInt64⟩

/-- The bar that is `periods` bars ahead of bar `t`. The sum wraps around. -/
def ahead (t : Nat) (periods : UInt64) : Nat := ((t : UInt64) + periods).toNat

/-- The relative change of a price to the one at bar `i`, undefined if there is none. -/
def changeTo (close : List α) (base : α) (i : Nat) : α :=
  match close[i]? with
  | some later => relativeChange later base
  | none => nan

/-- The relative change of each price over the next `periods` bars. It is undefined at the end,
where there is no later price, and where the price itself is 0 or undefined. -/
def forward (close : List α) (periods : UInt64) : List α :=
  close.zipIdx.map fun (base, t) => changeTo close base (ahead t periods)

/-- The bar ahead, if its position is a machine word. -/
def checkedAhead? (t : Nat) (periods : UInt64) : Option Nat :=
  if t + periods.toNat < UInt64.size then some (t + periods.toNat) else none

/-- The same changes with every sum checked, and nothing if one of them wraps around. -/
def checkedForward? (close : List α) (periods : UInt64) : Option (List α) :=
  close.zipIdx.mapM fun (base, t) => (checkedAhead? t periods).map (changeTo close base)

/-- The growth of a starting value of 1. -/
def compound (returns : List α) : List α :=
  accumulate (fun equity r => equity * (1 + r)) 1 returns

/-- The greatest value so far. -/
def peaks (equity : List α) : List α := accumulate larger (-infinity) equity

/-- How far a value lies below a positive peak, as a share of it. -/
def belowPeak (value peak : α) : α := if 0 < peak then value / peak - 1 else 0

/-- Each value relative to the greatest one so far. -/
def drawdowns (equity : List α) : List α := equity.zipWith belowPeak (peaks equity)

end FactorStudy.Returns
