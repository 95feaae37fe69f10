import FactorStudy.Double
import FactorStudy.Proofs.Double.Operations

/-!
# Multiples without rounding

The position of a portfolio is 1, -1 or 0, and its return is the position times the return of the
symbol. These products are exact: a finite double times 1 is itself, times -1 its opposite, and
times 0 a zero, whose sign is the only thing that differs.
-/

namespace FactorStudy.Double

open Float.Model (Format UnpackedFloat)
open Float.Model.UnpackedFloat

theorem positive_mul (s : Sign) : .positive * s = s := by
  cases s <;> rfl

theorem negative_mul (s : Sign) : .negative * s = -s := by
  cases s <;> rfl

/-- A product with 1 or -1, which is `2 ^ 52 * 2 ^ -52` with a sign. -/
theorem mul_unit {d : Decimal.Dyadic} (hd : d.Canonical) (s t : Sign) :
    mul Format.binary64 (.finite s (2 ^ 52) (-52) (by decide)) (.finite t d.mantissa d.exponent hd.pos) =
      .finite (s * t) d.mantissa d.exponent hd.pos := by
  refine mul_of_near hd ?_ (Or.inl (Nat.le_mul_of_pos_right _ hd.pos)) s t _ hd.pos
  have hunit : ((2 ^ 52 : ℕ) : ℚ) * 2 ^ (-52 : ℤ) = 1 := by norm_num
  rw [hunit, one_mul]
  exact d.near_value

theorem one_mul_eq {x : Float} (hx : x.isFinite = true) : 1 * x = x := by
  have hmul : (1 * x : Float) = Float.ofModel (.pack (mul Format.binary64
      (.finite .positive (2 ^ 52) (-52) (by decide)) x.toModel.unpack)) := rfl
  rcases unpack_eq_dyadic x hx with ⟨hzero, -⟩ | ⟨hpos, hfinite⟩
  · rw [hmul, ← pack_unpack x, hzero]
    cases signOf x <;> rfl
  · rw [hmul, hfinite, mul_unit (finite_of_unpack hfinite).toCanonical, positive_mul, ← hfinite,
      pack_unpack]

theorem neg_one_mul_eq {x : Float} (hx : x.isFinite = true) : -1 * x = -x := by
  have hmul : (-1 * x : Float) = Float.ofModel (.pack (mul Format.binary64
      (.finite .negative (2 ^ 52) (-52) (by decide)) x.toModel.unpack)) := rfl
  have hneg : -x = Float.ofModel (.pack x.toModel.unpack.neg) := rfl
  rcases unpack_eq_dyadic x hx with ⟨hzero, -⟩ | ⟨hpos, hfinite⟩
  · rw [hmul, hneg, hzero]
    cases signOf x <;> rfl
  · rw [hmul, hneg, hfinite, mul_unit (finite_of_unpack hfinite).toCanonical, negative_mul]
    rfl

/-- A product with 0 counts as 0, though it may be `-0.0`. -/
theorem zero_mul_beq {x : Float} (hx : x.isFinite = true) : (0 * x == 0) = true := by
  have hmul : (0 * x : Float) =
      Float.ofModel (.pack (mul Format.binary64 (.zero .positive) x.toModel.unpack)) := rfl
  have hzeros : ∀ s : Sign, (Float.ofModel (.pack (.zero s)) == 0) = true := by
    intro s
    cases s <;> rfl
  rcases unpack_eq_dyadic x hx with ⟨hzero, -⟩ | ⟨hpos, hfinite⟩
  · rw [hmul, hzero]
    exact hzeros _
  · rw [hmul, hfinite]
    exact hzeros _

end FactorStudy.Double
