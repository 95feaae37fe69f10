/-!
# The arithmetic a study is computed in

Everything that is calculated from prices is written over a type of numbers with the operations
of this class, so that a formula is stated once and can be read in more than one arithmetic. The
program runs it on binary doubles (`Double.lean`); a reader who wants to know what a formula means
before rounding can read it over the reals.

Two things set these numbers apart from a field. There is a value `nan` that stands for "not
defined" and compares with nothing, and there is a second, total order `totalLe` that does place
it, which is the order that sorting uses.
-/

namespace FactorStudy

/-- Numbers with an undefined value, an infinity and the operations of the price formulas. -/
class Number (α : Type) extends Add α, Sub α, Mul α, Div α, Neg α, LT α, LE α, BEq α,
    OfScientific α where
  /-- The number nearest to a count. -/
  ofNat : Nat → α
  /-- The undefined value. -/
  nan : α
  /-- Above every other value that is defined. -/
  infinity : α
  /-- The relative spacing of the numbers near 1. -/
  epsilon : α
  isNaN : α → Bool
  isFinite : α → Bool
  decLt : (a b : α) → Decidable (a < b)
  decLe : (a b : α) → Decidable (a ≤ b)
  /-- A total order that agrees with `≤` on the defined values and separates the two zeros. -/
  totalLe : α → α → Bool
  abs : α → α
  sqrt : α → α
  exp : α → α
  log : α → α
  log10 : α → α
  pow : α → α → α
  /-- The largest count not above the value; 0 where there is none, and at most `2^64 - 1`. -/
  floorNat : α → Nat
  /-- The smallest count not below the value, within the same limits as `floorNat`. -/
  ceilNat : α → Nat

namespace Number

variable {α : Type} [Number α]

instance (priority := low) instOfNatOfNumber (n : Nat) : OfNat α n := ⟨ofNat n⟩

instance (priority := low) instDecidableLt (a b : α) : Decidable (a < b) := decLt a b

instance (priority := low) instDecidableLe (a b : α) : Decidable (a ≤ b) := decLe a b

/-- The value, or `nan` where it is not finite. -/
def orNaN (a : α) : α := if isFinite a then a else nan

/-- The value where it is finite. -/
def finite? (a : α) : Option α := if isFinite a then some a else none

/-- The value, or 0 where it is not finite. -/
def orZero (a : α) : α := if isFinite a then a else 0

/-- The larger of two values; an undefined one is passed over. -/
def larger (a b : α) : α :=
  if isNaN a then b else if isNaN b then a else if a < b then b else a

/-- The smaller of two values; an undefined one is passed over. -/
def smaller (a b : α) : α :=
  if isNaN a then b else if isNaN b then a else if b < a then b else a

/-- The value moved into `[lo, hi]`; an undefined value stays undefined. -/
def clamp (lo hi a : α) : α :=
  let raised := if a < lo then lo else a
  if hi < raised then hi else raised

/-- The sum from left to right. It starts from `-0`, the one neutral element of addition. -/
def sum (xs : List α) : α := xs.foldl (· + ·) (-0)

/-- The number of entries, as a number. -/
def count (xs : List α) : α := ofNat xs.length

end Number

end FactorStudy
