import FactorStudy.Number
import FactorStudy.Decimal.Dyadic

/-!
# Binary doubles as numbers

The arithmetic the program runs in. Sums, products, quotients and square roots are the correctly
rounded ones, so a formula and the order of its operations fix the result to the bit.
-/

namespace FactorStudy

/-- The place of a double in the total order: undefined values at the two ends by sign, and `-0.0`
just below `0.0`. -/
def totalOrderKey (x : Float) : Int :=
  let bits := x.toBits.toNat
  if bits < Nat.pow 2 63 then bits else Nat.pow 2 63 - 1 - (bits : Int)

instance : Number Float where
  ofNat := Float.ofNat
  nan := 0.0 / 0.0
  infinity := 1.0 / 0.0
  epsilon := 2.220446049250313e-16
  isNaN := Float.isNaN
  isFinite := Float.isFinite
  decLt := fun a b => Float.decLt a b
  decLe := fun a b => Float.decLe a b
  totalLe := fun a b => totalOrderKey a ≤ totalOrderKey b
  abs := Float.abs
  sqrt := Float.sqrt
  exp := Float.exp
  log := Float.log
  log10 := Float.log10
  pow := Float.pow
  floorNat := Decimal.toCount Decimal.Dyadic.floor
  ceilNat := Decimal.toCount Decimal.Dyadic.ceil

end FactorStudy
