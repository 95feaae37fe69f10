/-!
# The exact value of a double

A finite double is an integer times a power of two. Every exact question about it (its digits,
whether it is a whole number, the count below it) is answered on that pair in integer arithmetic,
never by floating-point operations.
-/

namespace FactorStudy.Decimal

/-- A magnitude `mantissa * 2 ^ exponent`. -/
structure Dyadic where
  mantissa : Nat
  exponent : Int
deriving Repr, DecidableEq

/-- The sign bit, which `-0.0` has too. -/
def isNegative (x : Float) : Bool := x.toBits >>> 63 == 1

/-- The eleven exponent bits. -/
def exponentField (x : Float) : Nat := (x.toBits >>> 52 &&& 0x7ff).toNat

/-- The fifty-two bits after the leading one. -/
def fractionField (x : Float) : Nat := (x.toBits &&& 0xfffffffffffff).toNat

/-- The magnitude of a finite double. -/
def dyadic (x : Float) : Dyadic :=
  match exponentField x with
  | 0 => ⟨fractionField x, -1074⟩
  | e => ⟨fractionField x + Nat.pow 2 52, (e : Int) - 1075⟩

namespace Dyadic

/-- The numerator over `den`. -/
def num (d : Dyadic) : Nat := d.mantissa * Nat.pow 2 d.exponent.toNat

/-- A power of two. -/
def den (d : Dyadic) : Nat := Nat.pow 2 (-d.exponent).toNat

def floor (d : Dyadic) : Nat := d.num / d.den

def ceil (d : Dyadic) : Nat := (d.num + d.den - 1) / d.den

/-- Whether the magnitude is a whole number. -/
def isWhole (d : Dyadic) : Bool := d.num % d.den == 0

end Dyadic

/-- Whether a double is finite and a whole number. -/
def isWhole (x : Float) : Bool := x.isFinite && (dyadic x).isWhole

/-- The largest count that fits a 64-bit word. -/
def maxCount : Nat := Nat.pow 2 64 - 1

/-- A count read from a double: 0 for an undefined or negative one, capped at `maxCount`. -/
def toCount (round : Dyadic → Nat) (x : Float) : Nat :=
  if x.isNaN || isNegative x then 0
  else if x.isFinite then min (round (dyadic x)) maxCount
  else maxCount

/-- A signed 64-bit integer read from a double: toward zero, at the ends of the range where the
double lies beyond it, and 0 where it is undefined. -/
def toInteger (x : Float) : Int :=
  if x.isNaN then 0
  else
    let magnitude := if x.isFinite then (dyadic x).floor else Nat.pow 2 64
    if isNegative x then max (-(magnitude : Int)) (-(Nat.pow 2 63 : Int))
    else min (magnitude : Int) (Nat.pow 2 63 - 1)

end FactorStudy.Decimal
