import FactorStudy.Decimal.Shortest

/-!
# Numbers as text

Three layouts. `plain` writes the shortest digits that read back in positional notation, whatever
the magnitude. `fixed` writes a given number of places, rounding the exact value. `compact` is the
layout inside stored reports: positional with a point for moderate magnitudes, scientific beyond.
-/

namespace FactorStudy.Decimal

/-- The decimal digits of a count. -/
def digitsOf (n : Nat) : List Char := Nat.toDigits 10 n

/-- Digits with the point after `places` from the right, none when `places` is 0. -/
def pointed (digits : List Char) (places : Nat) : List Char :=
  if places = 0 then digits
  else
    let padded := List.replicate (places + 1 - digits.length) '0' ++ digits
    let whole := padded.length - places
    padded.take whole ++ '.' :: padded.drop whole

/-- A magnitude in positional notation, as many places as it needs. -/
def Scaled.positional (s : Scaled) : List Char :=
  pointed (digitsOf s.digits ++ (if s.digits = 0 then [] else List.replicate s.exponent.toNat '0'))
    (-s.exponent).toNat

/-- A minus in front where the sign bit is set. -/
def signed (negative : Bool) (text : List Char) : String :=
  String.ofList (if negative then '-' :: text else text)

/-- The shortest digits that read back, never with an exponent; of two equally near the upper. -/
def plain (x : Float) : String :=
  if x.isNaN then "NaN"
  else if x.isFinite then signed (isNegative x) (shortest .up (dyadic x)).positional
  else signed (isNegative x) ['i', 'n', 'f']

/-- The exact value rounded to `places` digits after the point, a half to even. The sign stays
when everything else rounds away. -/
def fixed (places : Nat) (x : Float) : String :=
  if x.isNaN then "NaN"
  else if x.isFinite then
    let d := dyadic x
    signed (isNegative x) (pointed (digitsOf (roundDiv (d.num * Nat.pow 10 places) d.den)) places)
  else signed (isNegative x) ['i', 'n', 'f']

/-- Scientific notation: one digit before the point, the exponent with its sign. -/
def Scaled.scientific (s : Scaled) : List Char :=
  let digits := digitsOf s.digits
  let exponent := s.exponent + (digits.length - 1 : Nat)
  let mantissa :=
    match digits with
    | lead :: rest@(_ :: _) => lead :: '.' :: rest
    | short => short
  mantissa ++ 'e' :: (if exponent < 0 then '-' else '+') :: digitsOf exponent.natAbs

/-- The layout of numbers in stored reports: positional with at least one place while the leading
digit stands at `10 ^ -5` to `10 ^ 15`, scientific otherwise. Of two shortest decimals that are
equally near it writes the even one. -/
def compact (x : Float) : String :=
  let s := shortest .toEven (dyadic x)
  let lead := s.exponent + (digitCount s.digits - 1 : Nat)
  signed (isNegative x)
    (if s.digits = 0 then ['0', '.', '0']
     else if -5 ≤ lead ∧ lead ≤ 15 then
      if 0 ≤ s.exponent then s.positional ++ ['.', '0'] else s.positional
     else s.scientific)

end FactorStudy.Decimal
