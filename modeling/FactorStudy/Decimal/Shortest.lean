import FactorStudy.Decimal.Dyadic

/-!
# The fewest digits that read back

Every real number near enough to a double is read as that double, and these numbers form an
interval around its exact value. `shortest` looks for the coarsest decimal grid with a point in
that interval, and of the grid points in it takes the one nearest to the value. A grid has a point
in the interval only if one of the two grid points next to the value lies in it, so two candidates
per grid are enough; seventeen digits always suffice.
-/

namespace FactorStudy.Decimal

/-- Where a value goes that lies halfway between two candidates. -/
inductive Tie where
  | up
  | toEven
deriving Repr, DecidableEq

/-- The nearer of `below` and `below + 1`, for a value that lies `twice / (2 * unit)` above
`below`. -/
def Tie.choose (tie : Tie) (below twice unit : Nat) : Nat :=
  if twice < unit then below
  else if unit < twice then below + 1
  else
    match tie with
    | .up => below + 1
    | .toEven => if below % 2 = 0 then below else below + 1

/-- The quotient rounded to the nearest integer, a half to the even neighbour. -/
def roundDiv (num den : Nat) : Nat := Tie.toEven.choose (num / den) (2 * (num % den)) den

/-- A decimal magnitude `digits * 10 ^ exponent`. -/
structure Scaled where
  digits : Nat
  exponent : Int
deriving Repr, DecidableEq

/-- The number of decimal digits of a positive integer. -/
def digitCount (n : Nat) : Nat := (Nat.toDigits 10 n).length

/-- For a positive fraction, the `p` with `10 ^ (p - 1) ≤ num / den < 10 ^ p`. -/
def pointPosition (num den : Nat) : Int :=
  if den ≤ num then digitCount (num / den)
  else 1 - (digitCount ((den - 1) / num) : Int)

/-- The numbers that read as one double: from `lo / den` to `hi / den`, the ends included or not.
The value itself is `mid / den`. -/
structure Neighbourhood where
  lo : Nat
  mid : Nat
  hi : Nat
  den : Nat
  closed : Bool

namespace Neighbourhood

/-- The numbers nearer to the double than to either of its neighbours. Below a power of two the
next double is half as far away as above it. The two ends are read as the double whose mantissa is
even. -/
def of (d : Dyadic) : Neighbourhood :=
  let scale := Nat.pow 2 d.exponent.toNat
  let gapBelow := if d.mantissa = Nat.pow 2 52 ∧ -1074 < d.exponent then 1 else 2
  ⟨(4 * d.mantissa - gapBelow) * scale, 4 * d.mantissa * scale, (4 * d.mantissa + 2) * scale,
    4 * d.den, d.mantissa % 2 = 0⟩

/-- Whether the fraction `num / k` lies in the neighbourhood. -/
def contains (b : Neighbourhood) (num k : Nat) : Bool :=
  let v := num * b.den
  if b.closed then b.lo * k ≤ v && v ≤ b.hi * k else b.lo * k < v && v < b.hi * k

/-- The best point of the grid with the given spacing `10 ^ exponent`, if one lies inside. -/
def gridPoint? (b : Neighbourhood) (tie : Tie) (exponent : Int) : Option Scaled :=
  let up := Nat.pow 10 exponent.toNat
  let down := Nat.pow 10 (-exponent).toNat
  let below := b.mid * down / (b.den * up)
  let above := below + 1
  let rest := b.mid * down % (b.den * up)
  match b.contains (below * up) down, b.contains (above * up) down with
  | true, true => some ⟨tie.choose below (2 * rest) (b.den * up), exponent⟩
  | true, false => some ⟨below, exponent⟩
  | false, true => some ⟨above, exponent⟩
  | false, false => none

end Neighbourhood

/-- A decimal without trailing zeros; at most `fuel` are taken off. -/
def Scaled.trim : Nat → Scaled → Scaled
  | 0, s => s
  | fuel + 1, s =>
    if s.digits % 10 = 0 ∧ s.digits ≠ 0 then trim fuel ⟨s.digits / 10, s.exponent + 1⟩ else s

/-- The shortest decimal that reads back as the magnitude, zero as no digits at all. -/
def shortest (tie : Tie) (d : Dyadic) : Scaled :=
  if d.mantissa = 0 then ⟨0, 0⟩
  else
    let p := pointPosition d.num d.den
    let b := Neighbourhood.of d
    match (List.range 17).findSome? fun (n : Nat) => b.gridPoint? tie (p - (n + 1)) with
    | some s => s.trim 18
    | none => ⟨d.mantissa, d.exponent⟩

end FactorStudy.Decimal
