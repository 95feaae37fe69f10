import FactorStudy.Stats.Ic

/-!
# The Student t distribution

How likely it is that a t-distributed quantity is at least as far from 0 as an observed one. The
probability is a regularized incomplete beta function, computed from its continued fraction, with
the logarithm of the gamma function from a Lanczos series. This is the distribution that the program
tests with; nothing that is proved depends on how it is computed.
-/

namespace FactorStudy

namespace StudentT

/-- The coefficients of the Lanczos series, for the shift `lanczosShift`. -/
def lanczos : List Float :=
  [2.48574089138753565546e-5, 1.05142378581721974210, -3.45687097222016235469,
    4.51227709466894823700, -2.98285225323576655721, 1.05639711577126713077,
    -1.95428773191645869583e-1, 1.70970543404441224307e-2, -5.71926117404305781283e-4,
    4.63399473359905636708e-6, -2.71994908488607703910e-9]

def lanczosShift : Float := 10.900511

/-- The logarithm of `2 * sqrt (e / pi)`. -/
def logTwoSqrtEOverPi : Float := 0.6207822376352452223455184457816472122518527279025978

def logPi : Float := 1.1447298858494001741434273513530587116472948129153

def pi : Float := 3.14159265358979323846264338327950288

def euler : Float := 2.71828182845904523536028747135266250

/-- The logarithm of the gamma function. Below one half it is reflected to the other side. -/
def logGamma (x : Float) : Float :=
  let head := lanczos.headD 0
  let tail := lanczos.tail.zipIdx 1
  if x < 0.5 then
    let s := tail.foldl (fun s (d, i) => s + d / (Float.ofNat i - x)) head
    logPi - Float.log (Float.sin (pi * x)) - Float.log s - logTwoSqrtEOverPi
      - (0.5 - x) * Float.log ((0.5 - x + lanczosShift) / euler)
  else
    let s := tail.foldl (fun s (d, i) => s + d / (x + Float.ofNat i - 1.0)) head
    Float.log s + logTwoSqrtEOverPi
      + (x - 0.5) * Float.log ((x - 0.5 + lanczosShift) / euler)

/-- The relative error at which the continued fraction stops. -/
def precision : Float := 0.00000000000000011102230246251565

/-- A denominator that is never too small to divide by. -/
def away (x : Float) : Float :=
  let least := 2.2250738585072014e-308 / precision
  if x.abs < least then least else x

/-- The continued fraction of the incomplete beta function from term `m` on, for at most `fuel`
terms. `c` and `d` are the ratios of successive numerators and denominators, `h` the value so
far. -/
def betaFraction (a b x : Float) : Nat → Nat → Float → Float → Float → Float
  | 0, _, _, _, h => h
  | fuel + 1, m, c, d, h =>
    let m' := Float.ofNat m
    let m2 := m' * 2.0
    let even := m' * (b - m') * x / ((a - 1.0 + m2) * (a + m2))
    let d := 1.0 / away (1.0 + even * d)
    let c := away (1.0 + even / c)
    let h := h * d * c
    let odd := -(a + m') * (a + b + m') * x / ((a + m2) * (a + 1.0 + m2))
    let d := 1.0 / away (1.0 + odd * d)
    let c := away (1.0 + odd / c)
    let step := d * c
    let h := h * step
    if (step - 1.0).abs ≤ precision then h else betaFraction a b x fuel (m + 1) c d h

/-- The number of terms after which the continued fraction is taken as it stands. -/
def maxTerms : Nat := 140

/-- Whether an argument is as good as 0 or 1, where the front factor of the beta function
vanishes. -/
def atEnd (x : Float) : Bool := x ≤ 2.220446049250313e-16 || 1.0 - x ≤ 4.440892098500626e-16

/-- The regularized incomplete beta function. The fraction converges fast on one side of its
turning point, and the other side is reached by symmetry. -/
def betaRegularized (a b x : Float) : Float :=
  let front :=
    if atEnd x then 0.0
    else Float.exp (logGamma (a + b) - logGamma a - logGamma b + a * Float.log x
      + b * Float.log (1.0 - x))
  let value (a b x : Float) : Float :=
    let d := 1.0 / away (1.0 - (a + b) * x / (a + 1.0))
    front * betaFraction a b x maxTerms 1 1.0 d d / a
  if (a + 1.0) / (a + b + 2.0) ≤ x then 1.0 - value b a (1.0 - x) else value a b x

/-- The probability that the quantity lies at least `t` from 0 on either side. -/
def twoTailed (freedom t : Float) : Float :=
  let h := freedom / (freedom + t * t)
  let tail := 0.5 * betaRegularized (freedom / 2.0) 0.5 h
  let below := if t ≤ 0.0 then tail else 1.0 - tail
  2.0 * (1.0 - below)

end StudentT

/-- The distribution of the program. -/
instance : TDistribution := ⟨StudentT.twoTailed⟩

end FactorStudy
