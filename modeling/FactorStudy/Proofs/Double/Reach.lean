import FactorStudy.Proofs.Double.Roots
import FactorStudy.Proofs.Series.Percentile

/-!
# Lower bounds and zeros

A sum of equal values that are not negative is not rounded below what their number promises, and a
quotient or a root of it keeps its bound, whether anything overflows on the way or not. `Reaches`
says this of one double, for bounds that are doubles themselves. What is divided by a value with such
a bound stays finite (`Reaches.isFinite_div`).

Zeros are kept apart from the rest by `==`, which does not see their sign.
-/

namespace FactorStudy

open Number

namespace Double

/-! ## Values from a number on -/

/-- Defined, and not below `q`. What has overflowed is among it. -/
def Reaches (x : Float) (q : ℚ) : Prop := isNaN x = false ∧ q ≤ value x

theorem RoundsTo.reaches {x c : Float} {p : ℚ} (h : RoundsTo x p) (hc : isNaN c = false)
    (hle : value c ≤ p) : Reaches x (value c) := ⟨h.1, h.le_value hc hle⟩

theorem reaches_infinity {c : Float} (hc : isNaN c = false) : Reaches infinity (value c) :=
  ⟨rfl, value_le_infinity hc⟩

theorem infinity_add {y : Float} (hy : Nonneg y) : (infinity : Float) + y = infinity := by
  have hadd : infinity + y = Float.ofModel (.pack (Float.Model.UnpackedFloat.add
      Float.Model.Format.binary64 (infinity : Float).toModel.unpack y.toModel.unpack)) := rfl
  rcases nonneg_iff.mp hy with ⟨s, hu⟩ | ⟨m, e, hm, hu⟩ | hu
  · rw [hadd, hu]
    rfl
  · rw [hadd, hu]
    rfl
  · rw [hadd, hu]
    rfl

theorem infinity_div {f : Float} (hf : isFinite f = true) (hpos : 0 < value f) :
    (infinity : Float) / f = infinity := by
  have hdiv : infinity / f = Float.ofModel (.pack (Float.Model.UnpackedFloat.div
      Float.Model.Format.binary64 (infinity : Float).toModel.unpack f.toModel.unpack)) := rfl
  rcases finite_cases hf with ⟨s, -, hvalue⟩ | ⟨s, d, hd, hu, hvalue⟩
  · linarith
  · have hdpos := hd.value_pos
    cases s
    · rw [hvalue, signed] at hpos
      linarith
    · rw [hdiv, hu]
      rfl

/-- What is rounded from the value of a finite double is finite and has this value. -/
theorem RoundsTo.same {x d : Float} (h : RoundsTo x (value d)) (hd : isFinite d = true) :
    isFinite x = true ∧ value x = value d := by
  have hdef := isNaN_of_isFinite hd
  have hvalue := h.value_eq (roundsTo_value hdef)
  refine ⟨?_, hvalue⟩
  rw [isFinite_iff_value h.1, hvalue]
  exact (isFinite_iff_value hdef).mp hd

theorem exists_integer_value {z e : ℤ} (hz : z.natAbs < 2 ^ 53) (hlow : -1074 ≤ e)
    (hhigh : e ≤ 971) : ∃ x : Float, isFinite x = true ∧ value x = z * 2 ^ e := by
  obtain ⟨x, hx, hvalue⟩ := exists_value hz hlow hhigh
  obtain ⟨k, rfl | rfl⟩ := Int.eq_nat_or_neg z
  · exact ⟨x, hx, by rw [hvalue, Int.natAbs_natCast, Int.cast_natCast]⟩
  · refine ⟨-x, (isFinite_neg x).trans hx, ?_⟩
    rw [value_neg, hvalue, Int.natAbs_neg, Int.natAbs_natCast, Int.cast_neg, Int.cast_natCast,
      neg_mul]

/-- A number that is a double is not rounded away from itself. -/
theorem RoundsTo.units {x : Float} {k : ℕ} {e : ℤ} (h : RoundsTo x (k * 2 ^ e)) (hk : k < 2 ^ 53)
    (hlow : -1074 ≤ e) (hhigh : e ≤ 971) : isFinite x = true ∧ value x = k * 2 ^ e := by
  obtain ⟨c, hc, hvalue⟩ := exists_value hk hlow hhigh
  rw [← hvalue] at h ⊢
  exact h.same hc

theorem value_two : value (ofNat 2) = 2 := value_ofNat (n := 2) (by decide)

theorem roundsTo_half {x : Float} (hx : isFinite x = true) :
    RoundsTo (x / ofNat 2) (value x / 2) := by
  have h := roundsTo_div hx (isFinite_ofNat (n := 2) (by decide)) (by rw [value_two]; norm_num)
  rwa [value_two] at h

namespace Reaches

variable {x y c : Float} {p q : ℚ}

theorem mono (h : Reaches x q) (hpq : p ≤ q) : Reaches x p := ⟨h.1, hpq.trans h.2⟩

theorem nonneg (h : Reaches x q) (hq : 0 ≤ q) : Nonneg x := by
  refine ⟨h.1, ?_⟩
  rw [lt_iff_value h.1 rfl, value_zero]
  exact not_lt.mpr (hq.trans h.2)

theorem not_le_zero (h : Reaches x q) (hq : 0 < q) : ¬ x ≤ 0 := by
  rw [le_iff_value h.1 rfl, value_zero]
  exact not_le.mpr (hq.trans_le h.2)

theorem pos (h : Reaches x q) (hq : 0 < q) : 0 < x := by
  rw [lt_iff_value rfl h.1, value_zero]
  exact hq.trans_le h.2

theorem eq_infinity (h : Reaches x q) (hq : 0 ≤ q) (hx : isFinite x = false) : x = infinity :=
  Double.eq_infinity h.1 (hq.trans h.2) hx

/-- A sum reaches the double that the bounds add up to. -/
theorem add (hx : Reaches x p) (hy : Reaches y q) (hp : 0 ≤ p) (hq : 0 ≤ q)
    (hc : isNaN c = false) (hle : value c ≤ p + q) : Reaches (x + y) (value c) := by
  cases hfx : isFinite x with
  | false =>
    rw [hx.eq_infinity hp hfx, infinity_add (hy.nonneg hq)]
    exact reaches_infinity hc
  | true =>
    cases hfy : isFinite y with
    | false =>
      rw [hy.eq_infinity hq hfy, add_infinity hfx]
      exact reaches_infinity hc
    | true => exact (roundsTo_add hfx hfy).reaches hc (by linarith [hx.2, hy.2])

/-- A quotient by a positive value reaches the double that the bound is divided to. -/
theorem div (hx : Reaches x p) (hp : 0 ≤ p) (hy : isFinite y = true) (hpos : 0 < value y)
    (hc : isNaN c = false) (hle : value c * value y ≤ p) : Reaches (x / y) (value c) := by
  cases hfx : isFinite x with
  | false =>
    rw [hx.eq_infinity hp hfx, infinity_div hy hpos]
    exact reaches_infinity hc
  | true =>
    refine (roundsTo_div hfx hy hpos.ne').reaches hc ?_
    rw [le_div_iff₀ hpos]
    exact hle.trans hx.2

/-- A product with a finite value from 1 on reaches what the other factor does. -/
theorem mul_finite (hx : Reaches x (value c)) (hc : isNaN c = false) (hpos : 0 ≤ value c)
    (hy : isFinite y = true) (hone : 1 ≤ value y) : Reaches (x * y) (value c) := by
  cases hfx : isFinite x with
  | false =>
    rw [hx.eq_infinity hpos hfx, infinity_mul hy (by linarith)]
    exact reaches_infinity hc
  | true =>
    refine (roundsTo_mul hfx hy).reaches hc ?_
    nlinarith [hx.2]

/-- The root of what reaches the square of a power of two reaches the power. -/
theorem sqrt {k : ℤ} (hlow : -1074 ≤ k) (hhigh : k ≤ 971) (hx : Reaches x (4 ^ k)) :
    Reaches (Number.sqrt x) (2 ^ k) := by
  obtain ⟨c, hc, hvalue⟩ := exists_value (n := 1) (by decide) hlow hhigh
  rw [Nat.cast_one, one_mul] at hvalue
  rw [← hvalue]
  cases hfx : isFinite x with
  | false =>
    rw [hx.eq_infinity (by positivity) hfx]
    exact reaches_infinity (isNaN_of_isFinite hc)
  | true =>
    have hpos : 0 < value x := lt_of_lt_of_le (by positivity) hx.2
    obtain ⟨q, hround, hpower, -⟩ := exists_roundsTo_sqrt hfx hpos
    exact hround.reaches (isNaN_of_isFinite hc) (hvalue ▸ hpower k hx.2)

/-- What is divided by a value that is not too small for it stays finite. -/
theorem isFinite_div {k : ℤ} (hy : Reaches y (2 ^ k)) (hx : isFinite x = true)
    (hc : isFinite c = true) (hle : |value x| ≤ value c * 2 ^ k) : isFinite (x / y) = true := by
  have hpow : (0 : ℚ) < 2 ^ k := by positivity
  cases hfy : isFinite y with
  -- a finite value by an infinite one is a zero
  | false =>
    rcases div_infinite hx hfy hy.1 with h | h
    · rw [h]
      rfl
    · rw [h]
      rfl
  | true =>
    have hpos : 0 < value y := hpow.trans_le hy.2
    -- otherwise the quotient is no larger than `c`, so rounding cannot overflow
    have hbound : |value x / value y| ≤ value c := by
      have hcpos : 0 ≤ value c := by
        by_contra hneg
        have := mul_neg_of_neg_of_pos (not_le.mp hneg) hpow
        linarith [abs_nonneg (value x)]
      rw [abs_div, abs_of_pos hpos, div_le_iff₀ hpos]
      exact hle.trans (mul_le_mul_of_nonneg_left hy.2 hcpos)
    obtain ⟨hlo, hhi⟩ := abs_le.mp hbound
    exact (roundsTo_div hx hfy hpos.ne').finite hc hlo hhi

end Reaches

/-- Equal values are summed to as much as their number promises. -/
theorem Reaches.foldl_replicate {s : Float} {e : ℤ} (hlow : -1074 ≤ e) (hhigh : e ≤ 971)
    (hs : Reaches s (2 ^ e)) {n k : ℕ} (hn : k + n < 2 ^ 53) {start : Float}
    (hstart : Reaches start (k * 2 ^ e)) :
    Reaches ((List.replicate n s).foldl (· + ·) start) ((k + n : ℕ) * 2 ^ e) := by
  induction n generalizing k start with
  | zero => exact hstart
  | succ n ih =>
    -- each partial sum is held against a multiple that is a double
    obtain ⟨c, hc, hvalue⟩ := exists_value (n := k + 1) (by omega) hlow hhigh
    have hnext : Reaches (start + s) ((k + 1 : ℕ) * 2 ^ e) := by
      rw [← hvalue]
      refine hstart.add hs (by positivity) (by positivity) (isNaN_of_isFinite hc) ?_
      rw [hvalue]
      push_cast
      linarith
    rw [List.replicate_succ, List.foldl_cons, show k + (n + 1) = k + 1 + n by omega]
    exact ih (by omega) hnext

/-! ## Zeros -/

theorem zero_cases {x : Float} (h : (x == 0) = true) : x = 0 ∨ x = -0 := by
  rcases eq_or_zeros_of_beq h with rfl | ⟨rfl, -⟩ | ⟨rfl, -⟩
  · exact Or.inl rfl
  · exact Or.inl rfl
  · exact Or.inr rfl

/-- Values other than 0 tell doubles apart. -/
theorem eq_of_value_eq {x y : Float} (hx : isNaN x = false) (hy : isNaN y = false)
    (hne : value x ≠ 0) (h : value x = value y) : x = y := by
  rcases eq_or_zeros_of_beq ((beq_iff_value hx hy).mpr h) with rfl | ⟨rfl, -⟩ | ⟨rfl, -⟩
  · rfl
  · exact absurd value_zero hne
  · exact absurd (by rw [value_neg, value_zero, neg_zero]) hne

theorem isFinite_of_beq_zero {x : Float} (h : (x == 0) = true) : isFinite x = true := by
  rcases zero_cases h with rfl | rfl
  · rfl
  · rfl

theorem beq_zero_of_value {x : Float} (hx : isNaN x = false) (h : value x = 0) : (x == 0) = true :=
  (beq_iff_value hx rfl).mpr (h.trans value_zero.symm)

theorem RoundsTo.beq_zero {x : Float} (h : RoundsTo x 0) : (x == 0) = true :=
  h.beq (value_zero ▸ roundsTo_value rfl)

theorem add_beq_zero {x y : Float} (hx : (x == 0) = true) (hy : (y == 0) = true) :
    (x + y == 0) = true := by
  rcases zero_cases hx with rfl | rfl <;> rcases zero_cases hy with rfl | rfl <;> rfl

/-- Zeros have no sum. -/
theorem foldl_replicate_beq_zero {s : Float} (hs : (s == 0) = true) (n : ℕ) {start : Float}
    (hstart : (start == 0) = true) :
    ((List.replicate n s).foldl (· + ·) start == 0) = true := by
  induction n generalizing start with
  | zero => exact hstart
  | succ n ih =>
    rw [List.replicate_succ, List.foldl_cons]
    exact ih (add_beq_zero hstart hs)

theorem div_beq_zero {x y : Float} (hx : (x == 0) = true) (hy : isFinite y = true)
    (hne : value y ≠ 0) : (x / y == 0) = true := by
  have hround := roundsTo_div (isFinite_of_beq_zero hx) hy hne
  rw [(value_of_beq_zero hx).2, zero_div] at hround
  exact hround.beq_zero

/-- A quotient by a zero is not finite. -/
theorem isFinite_div_zero (x : Float) {y : Float} (hy : (y == 0) = true) :
    isFinite (x / y) = false := by
  have hzero : ∃ s, y.toModel.unpack = .zero s := by
    rcases zero_cases hy with rfl | rfl
    · exact ⟨_, rfl⟩
    · exact ⟨_, rfl⟩
  obtain ⟨s, hs⟩ := hzero
  by_contra hfinite
  have hdiv := isFinite_of_pack (u := Float.Model.UnpackedFloat.div
    Float.Model.Format.binary64 x.toModel.unpack y.toModel.unpack) rfl
    (Bool.eq_true_of_not_eq_false hfinite)
  rw [hs] at hdiv
  generalize x.toModel.unpack = u at hdiv
  -- a quotient by 0 is undefined or infinite, whatever is divided
  cases u with
  | notANumber => cases hdiv
  | infinity t => cases hdiv
  | zero t => cases hdiv
  | finite t m e hm => cases hdiv

theorem not_pos_sqrt_of_beq_zero {x : Float} (hx : (x == 0) = true) : ¬ 0 < sqrt x := by
  rcases zero_cases hx with rfl | rfl
  · decide +kernel
  · decide +kernel

/-- What is above 0 is at least the smallest unit. -/
theorem reaches_unit {x : Float} (hx : isNaN x = false) (hpos : 0 ≤ value x)
    (hne : (x == 0) = false) : Reaches x (2 ^ (-1074 : ℤ)) := by
  obtain ⟨b, hb, hvalue⟩ := exists_value (n := 1) (by decide) (le_refl (-1074)) (by decide)
  rw [Nat.cast_one, one_mul] at hvalue
  cases hfx : isFinite x with
  | false =>
    rw [eq_infinity hx hpos hfx, ← hvalue]
    exact reaches_infinity (isNaN_of_isFinite hb)
  | true =>
    obtain ⟨z, hz⟩ := exists_units hfx
    have hunit : (0 : ℚ) < 2 ^ (-1074 : ℤ) := by positivity
    -- the value is a whole number of the smallest units, and not 0 of them
    have hzpos : 0 < z := by
      rw [hz] at hpos
      have hznonneg : 0 ≤ z := by exact_mod_cast nonneg_of_mul_nonneg_left hpos hunit
      refine lt_of_le_of_ne hznonneg ?_
      rintro rfl
      rw [Int.cast_zero, zero_mul] at hz
      rw [beq_zero_of_value hx hz] at hne
      cases hne
    have hone : (1 : ℚ) ≤ z := by exact_mod_cast hzpos
    exact ⟨hx, by rw [hz]; exact le_mul_of_one_le_left hunit.le hone⟩

end Double

end FactorStudy
