import FactorStudy.Series.Basic
import FactorStudy.Double
import FactorStudy.Proofs.Decimal.Nearest
import FactorStudy.Proofs.Double.Monotone
import FactorStudy.Proofs.Double.Undefined

/-!
# When results are finite

Three kinds of results never leave the finite doubles: what replaces everything else by 0, what is
moved between finite limits, and shares of counts. A quotient by a count is finite when the
dividend is, since nothing is rounded above a double that it is not above (`isFinite_div_ofNat`).

For the others it matters that values are not negative. Sums and products of such values may
overflow, but they stay defined (`Nonneg.add`, `Nonneg.mul`); a quotient of two is undefined when
both have overflowed, and otherwise not negative (`Nonneg.div`, `isNaN_div_iff`).
-/

namespace FactorStudy.Double

open Number
open Float.Model (Format UnpackedFloat)
open Float.Model.UnpackedFloat hiding infinity

/-! ## Values that are not finite -/

theorem unpack_nan : (nan : Float).toModel.unpack = .notANumber := rfl

theorem unpack_zero : (0 : Float).toModel.unpack = .zero .positive := rfl

theorem unpack_infinity : (infinity : Float).toModel.unpack = .infinity .positive := rfl

theorem unpack_neg_infinity : (-infinity : Float).toModel.unpack = .infinity .negative := rfl

/-- There are three doubles that are not finite. -/
theorem eq_of_isFinite_eq_false {x : Float} (h : isFinite x = false) :
    x = nan ∨ x = infinity ∨ x = -infinity := by
  have hmodel : x.toModel.unpack.isFinite = false := h
  cases hu : x.toModel.unpack with
  | notANumber => exact Or.inl (eq_of_unpack (hu.trans rfl))
  | infinity s =>
    right
    cases s with
    | positive => exact Or.inl (eq_of_unpack (hu.trans unpack_infinity.symm))
    | negative => exact Or.inr (eq_of_unpack (hu.trans unpack_neg_infinity.symm))
  | zero s => rw [hu] at hmodel; cases hmodel
  | finite s m e hm => rw [hu] at hmodel; cases hmodel

theorem lt_iff {x y : Float} :
    x < y ↔ UnpackedFloat.compare x.toModel.unpack y.toModel.unpack = some .lt := by
  show decide (x.toModel < y.toModel) = true ↔ _
  rw [decide_eq_true_iff]
  exact beq_iff_eq

theorem le_iff {x y : Float} :
    x ≤ y ↔ (UnpackedFloat.compare x.toModel.unpack y.toModel.unpack).any (·.isLE) = true := by
  show decide (x.toModel ≤ y.toModel) = true ↔ _
  rw [decide_eq_true_iff]
  rfl

theorem beq_iff {x y : Float} :
    (x == y) = true ↔ UnpackedFloat.compare x.toModel.unpack y.toModel.unpack = some .eq := by
  show (UnpackedFloat.compare x.toModel.unpack y.toModel.unpack == some .eq) = true ↔ _
  exact beq_iff_eq

/-- What compares as equal is the same, or both are zeros. -/
theorem eq_of_compare_eq_eq {u v : UnpackedFloat} (h : UnpackedFloat.compare u v = some .eq) :
    u = v ∨ ∃ s t, u = .zero s ∧ v = .zero t := by
  cases u with
  | notANumber => cases h
  | zero s =>
    cases v with
    | zero t => exact Or.inr ⟨s, t, rfl, rfl⟩
    | notANumber => cases h
    | infinity t => cases t <;> cases h
    | finite t n f hn => cases t <;> cases h
  | infinity s =>
    cases v with
    | infinity t =>
      cases s <;> cases t
      · exact Or.inl rfl
      · cases h
      · cases h
      · exact Or.inl rfl
    | _ => cases s <;> cases h
  | finite s m e hm =>
    cases v with
    | finite t n f hn =>
      -- exponents are compared first and mantissas only where these agree
      have hmagnitude : (compare e f).then (compare m n) = .eq → e = f ∧ m = n := by
        rw [Ordering.then_eq_eq, Int.compare_eq_eq, Nat.compare_eq_eq]
        exact id
      cases s <;> cases t
      · obtain ⟨rfl, rfl⟩ := hmagnitude (Ordering.swap_eq_eq.mp (Option.some.inj h))
        exact Or.inl rfl
      · cases h
      · cases h
      · obtain ⟨rfl, rfl⟩ := hmagnitude (Option.some.inj h)
        exact Or.inl rfl
    | notANumber => cases h
    | infinity t => cases t <;> cases s <;> cases h
    | zero t => cases s <;> cases h

/-- There are two zeros. -/
theorem eq_zero_of_unpack {x : Float} {s : Sign} (h : x.toModel.unpack = .zero s) :
    x = 0 ∨ x = -0 := by
  cases s with
  | positive => exact Or.inl (eq_of_unpack h)
  | negative => exact Or.inr (eq_of_unpack h)

/-- Doubles that count as equal are the same, or the two zeros. -/
theorem eq_or_zeros_of_beq {x y : Float} (h : (x == y) = true) :
    x = y ∨ (x = 0 ∧ y = -0) ∨ (x = -0 ∧ y = 0) := by
  rcases eq_of_compare_eq_eq (beq_iff.mp h) with heq | ⟨s, t, hx, hy⟩
  · exact Or.inl (eq_of_unpack heq)
  · rcases eq_zero_of_unpack hx with rfl | rfl <;> rcases eq_zero_of_unpack hy with rfl | rfl
    · exact Or.inl rfl
    · exact Or.inr (Or.inl ⟨rfl, rfl⟩)
    · exact Or.inr (Or.inr ⟨rfl, rfl⟩)
    · exact Or.inl rfl

/-- What counts as 0 is neither above nor below it. -/
theorem not_lt_of_beq_zero {x : Float} (h : (x == 0) = true) : ¬ 0 < x ∧ ¬ x < 0 := by
  rw [beq_iff, unpack_zero] at h
  rw [lt_iff, lt_iff, unpack_zero]
  cases hx : x.toModel.unpack with
  | notANumber => rw [hx] at h; cases h
  | infinity s => rw [hx] at h; cases s <;> cases h
  | zero s => exact ⟨nofun, nofun⟩
  | finite s m e hm => rw [hx] at h; cases s <;> cases h

/-- An infinity lies above all finite doubles. -/
theorem lt_infinity {x : Float} (h : isFinite x = true) : x < infinity := by
  have hmodel : x.toModel.unpack.isFinite = true := h
  rw [lt_iff, unpack_infinity]
  cases hu : x.toModel.unpack with
  | notANumber => rw [hu] at hmodel; cases hmodel
  | infinity s => rw [hu] at hmodel; cases hmodel
  | zero s => rfl
  | finite s m e hm => rfl

theorem not_infinity_lt (x : Float) : ¬ infinity < x := by
  rw [lt_iff, unpack_infinity]
  cases x.toModel.unpack with
  | infinity s => cases s <;> decide
  | notANumber => decide
  | zero s => simp [UnpackedFloat.compare]
  | finite s m e hm => simp [UnpackedFloat.compare]

/-- The other one lies below them. -/
theorem neg_infinity_lt {x : Float} (h : isFinite x = true) : -infinity < x := by
  have hmodel : x.toModel.unpack.isFinite = true := h
  rw [lt_iff, unpack_neg_infinity]
  cases hu : x.toModel.unpack with
  | notANumber => rw [hu] at hmodel; cases hmodel
  | infinity s => rw [hu] at hmodel; cases hmodel
  | zero s => rfl
  | finite s m e hm => rfl

theorem not_nan_lt (x : Float) : ¬ nan < x := by
  rw [lt_iff, unpack_nan]
  simp [UnpackedFloat.compare]

theorem not_lt_nan (x : Float) : ¬ x < nan := by
  rw [lt_iff, unpack_nan]
  cases x.toModel.unpack <;> simp [UnpackedFloat.compare]

/-! ## Values that are made finite -/

theorem isFinite_orZero (x : Float) : isFinite (orZero x) = true := by
  unfold orZero
  split
  · assumption
  · rfl

/-- Every defined value is moved between finite limits. -/
theorem isFinite_clamp {lo hi : Float} (hlo : isFinite lo = true) (hhi : isFinite hi = true)
    (x : Float) : isFinite (clamp lo hi x) = !isNaN x := by
  -- the two bounds one by one: neither makes a finite value infinite
  have hbounded : ∀ {y : Float}, isFinite y = true → isFinite (if hi < y then hi else y) = true := by
    intro y hy
    split
    · exact hhi
    · exact hy
  have hraised : isFinite x = true → isFinite (if x < lo then lo else x) = true := by
    intro hx
    split
    · exact hlo
    · exact hx
  unfold clamp
  cases hx : isFinite x with
  | true =>
    rw [isNaN_of_isFinite hx]
    exact hbounded (hraised hx)
  | false =>
    rcases eq_of_isFinite_eq_false hx with rfl | rfl | rfl
    · -- an undefined value is neither below nor above a bound
      rw [if_neg (not_nan_lt lo), if_neg (not_lt_nan hi)]
      rfl
    · rw [if_neg (not_infinity_lt lo), if_pos (lt_infinity hhi), hhi]
      rfl
    · rw [if_pos (neg_infinity_lt hlo)]
      exact hbounded hlo

/-- And an undefined one stays undefined. -/
theorem isNaN_clamp {lo hi : Float} (hlo : isFinite lo = true) (hhi : isFinite hi = true)
    (x : Float) : isNaN (clamp lo hi x) = isNaN x := by
  have hclamp := isFinite_clamp hlo hhi x
  cases hx : isNaN x with
  | false =>
    rw [hx] at hclamp
    exact isNaN_of_isFinite hclamp
  | true =>
    rw [eq_nan_of_isNaN hx, clamp, if_neg (not_nan_lt lo), if_neg (not_lt_nan hi)]
    rfl

/-! ## Counts and shares -/

/-- A power of two as a magnitude. -/
theorem exists_dyadic_two_pow {k : ℤ} (hlow : -1022 ≤ k) (hhigh : k ≤ 1023) :
    ∃ d : Decimal.Dyadic, Finite d ∧ d.value = 2 ^ k := by
  have hlog : (1 : ℕ).log2 + k ≤ 1023 := by
    rw [show (1 : ℕ).log2 = 0 by decide]
    omega
  obtain ⟨d, hd, -, hvalue⟩ := exists_dyadic Nat.one_pos (by decide) hlow hlog
  rw [Nat.cast_one, one_mul] at hvalue
  exact ⟨d, hd, hvalue⟩

/-- The number of entries of a list, which a machine word holds, is a double from 1 on. -/
theorem exists_unpack_ofNat {n : ℕ} (hpos : 0 < n) (hlt : n < 2 ^ 64) :
    ∃ (d : Decimal.Dyadic) (hd : Finite d), (ofNat n : Float).toModel.unpack =
      .finite .positive d.mantissa d.exponent hd.pos ∧ 1 ≤ d.value := by
  by_cases hshort : n < 2 ^ 53
  · -- such a count is converted exactly
    obtain ⟨d, hd, -, hvalue⟩ := exists_dyadic_of_lt hpos hshort
    have hword := unpack_toFloat hd hpos hshort hvalue
    have hnear : d.Near (n * 10 ^ (0 : ℤ)) := by
      rw [zpow_zero, mul_one, ← hvalue]
      exact d.near_value
    have hcount : (ofNat n : Float) = n.toUInt64.toFloat := float_ofScientific_of_near hword hpos hnear
    refine ⟨d, hd, hcount ▸ hword, ?_⟩
    rw [hvalue]
    exact_mod_cast hpos
  · -- a longer one is rounded, but not out of the range from 1 to `2 ^ 64`
    have hrounds := rounds_ofScientific hpos (show (0 : ℤ) ≤ 2048 by decide) (by omega)
    rw [zpow_zero, mul_one] at hrounds
    obtain ⟨c, hc, hcvalue⟩ := exists_dyadic_two_pow (k := 64) (by decide) (by decide)
    obtain ⟨b, hb, hbvalue⟩ := exists_dyadic_two_pow (k := 0) (by decide) (by decide)
    have hupper : (n : ℚ) ≤ c.value := by
      rw [hcvalue]
      exact_mod_cast hlt.le
    have hlower : b.value ≤ n := by
      rw [hbvalue, zpow_zero]
      exact_mod_cast hpos
    have hcount : (ofNat n : Float).toModel.unpack = unpack Format.binary64
        (pack Format.binary64 (ofScientific Format.binary64 n 0)) := by
      show (Float.ofScientific n false 0).toModel.unpack = _
      rw [Float.ofScientific, dif_neg (fun h => hshort h.1)]
      rfl
    rw [hcount]
    rcases hrounds.unpack_pack_of_le hc hupper with ⟨-, hsmall⟩ | ⟨d, hd, hunpack, hle⟩
    · exact absurd (hsmall b hb.toCanonical) (not_lt.mpr hlower)
    · have hone := hle b hb.toCanonical hlower
      rw [hbvalue, zpow_zero] at hone
      exact ⟨d, hd, hunpack, hone⟩

theorem isFinite_of_unpack_finite {x : Float} {s : Sign} {m : ℕ} {e : ℤ} {hm : 0 < m}
    (h : x.toModel.unpack = .finite s m e hm) : isFinite x = true := by
  show x.toModel.unpack.isFinite = true
  rw [h]
  rfl

theorem isFinite_ofNat {n : ℕ} (hlt : n < 2 ^ 64) : isFinite (ofNat n : Float) = true := by
  rcases Nat.eq_zero_or_pos n with rfl | hpos
  · rfl
  · obtain ⟨d, hd, hunpack, -⟩ := exists_unpack_ofNat hpos hlt
    exact isFinite_of_unpack_finite hunpack

/-- Dividing by a count neither overflows nor undoes an overflow. -/
theorem isFinite_div_ofNat (x : Float) {n : ℕ} (hpos : 0 < n) (hlt : n < 2 ^ 64) :
    isFinite (x / ofNat n) = isFinite x := by
  obtain ⟨d, hd, hcount, hone⟩ := exists_unpack_ofNat hpos hlt
  have hdiv : isFinite (x / ofNat n) = (unpack Format.binary64 (pack Format.binary64
      (div Format.binary64 x.toModel.unpack
        (.finite .positive d.mantissa d.exponent hd.pos)))).isFinite := by
    rw [← hcount]
    rfl
  have hx : isFinite x = x.toModel.unpack.isFinite := rfl
  rw [hdiv, hx]
  cases hu : x.toModel.unpack with
  | notANumber =>
    simp only [div]
    rw [unpack_pack_nan]
  | infinity s =>
    simp only [div]
    rw [unpack_pack_infinity]
    rfl
  | zero s =>
    simp only [div]
    rw [unpack_pack_zero]
    rfl
  | finite s m e hm =>
    -- the quotient is at most the dividend, which is a double
    have hc := finite_of_unpack hu
    have hle : (m * 2 ^ e / (d.mantissa * 2 ^ d.exponent) : ℚ) ≤ (⟨m, e⟩ : Decimal.Dyadic).value :=
      div_le_self (by positivity) hone
    rcases (rounds_div s .positive hm hd.pos).unpack_pack_of_le hc hle with
      ⟨hzero, -⟩ | ⟨b, hb, hfinite, -⟩
    · rw [hzero]
      rfl
    · rw [hfinite]
      rfl

/-- A share of a count is finite. -/
theorem isFinite_share {a b : ℕ} (hle : a ≤ b) (hpos : 0 < b) (hlt : b < 2 ^ 64) :
    isFinite (ofNat a / ofNat b : Float) = true := by
  rw [isFinite_div_ofNat _ hpos hlt]
  exact isFinite_ofNat (by omega)

/-- The share of some of the entries of a list, of at least one. -/
theorem isFinite_share_count {x : List Float} {a : ℕ} (hle : a ≤ x.length) (hsome : ¬ x.isEmpty = true)
    (hlt : x.length < 2 ^ 64) : isFinite (ofNat a / count x) = true := by
  refine isFinite_share hle ?_ hlt
  rwa [List.isEmpty_iff, ← ne_eq, ← List.length_pos_iff] at hsome

/-- A mean is finite when the sum is. -/
theorem isFinite_average {x : List Float} (hpos : 0 < x.length) (hlt : x.length < 2 ^ 64) :
    isFinite (Series.average x) = isFinite (sum x) :=
  isFinite_div_ofNat _ hpos hlt

/-! ## Values that are not negative -/

/-- Mantissas of doubles are long enough for their product to be rounded correctly. -/
theorem rounds_mul_canonical {c d : Decimal.Dyadic} (hc : c.Canonical) (hd : d.Canonical)
    (s t : Sign) : Rounds (UnpackedFloat.mul Format.binary64 (.finite s c.mantissa c.exponent hc.pos)
      (.finite t d.mantissa d.exponent hd.pos)) (s * t) (c.value * d.value) := by
  refine rounds_mul ?_ s t hc.pos hd.pos
  rcases hc.normal with h | hc'
  · exact Or.inl (Nat.le_trans h (Nat.le_mul_of_pos_right _ hd.pos))
  · rcases hd.normal with h | hd'
    · exact Or.inl (Nat.le_trans h (Nat.le_mul_of_pos_left _ hc.pos))
    · right
      omega

/-- Defined, and not below 0. What has overflowed may be among it. -/
def Nonneg (x : Float) : Prop := isNaN x = false ∧ ¬ x < 0

theorem nonneg_iff {x : Float} : Nonneg x ↔ (∃ s, x.toModel.unpack = .zero s) ∨
    (∃ m e hm, x.toModel.unpack = .finite .positive m e hm) ∨
    x.toModel.unpack = .infinity .positive := by
  have hnan : isNaN x = x.toModel.unpack.isNaN := rfl
  rw [Nonneg, lt_iff, unpack_zero, hnan]
  cases x.toModel.unpack with
  | notANumber => simp [UnpackedFloat.isNaN]
  | infinity s => cases s <;> simp [UnpackedFloat.isNaN, UnpackedFloat.compare]
  | zero s => simp [UnpackedFloat.isNaN, UnpackedFloat.compare]
  | finite s m e hm => cases s <;> simp [UnpackedFloat.isNaN, UnpackedFloat.compare, hm]

/-- What is computed and written to bits is read as the double that it is. -/
theorem unpack_ofModel (u : UnpackedFloat) :
    (Float.ofModel (.pack u)).toModel.unpack = unpack Format.binary64 (pack Format.binary64 u) := rfl

theorem nonneg_zero (s : Sign) : Nonneg (Float.ofModel (.pack (.zero s))) := by
  rw [nonneg_iff, unpack_ofModel, unpack_pack_zero]
  exact Or.inl ⟨s, rfl⟩

theorem nonneg_ofNat (n : ℕ) (h : n < 2 ^ 64 := by decide) : Nonneg (ofNat n : Float) := by
  rcases Nat.eq_zero_or_pos n with rfl | hpos
  · exact nonneg_zero .positive
  · obtain ⟨d, hd, hunpack, -⟩ := exists_unpack_ofNat hpos h
    exact nonneg_iff.mpr (Or.inr (Or.inl ⟨_, _, _, hunpack⟩))

theorem nonneg_infinity : Nonneg (Float.ofModel (.pack (.infinity .positive))) := by
  rw [nonneg_iff, unpack_ofModel, unpack_pack_infinity]
  exact Or.inr (Or.inr rfl)

theorem Rounds.nonneg {u : UnpackedFloat} {q : ℚ} (h : Rounds u .positive q) :
    Nonneg (Float.ofModel (.pack u)) := by
  rw [nonneg_iff, unpack_ofModel]
  rcases h.unpack_pack with hzero | ⟨d, hd, hfinite⟩ | hinf
  · exact Or.inl ⟨_, hzero⟩
  · exact Or.inr (Or.inl ⟨_, _, _, hfinite⟩)
  · exact Or.inr (Or.inr hinf)

theorem nonneg_normalize {n : ℤ} (hn : 0 < n) (e : ℤ) :
    Nonneg (Float.ofModel (.pack (UnpackedFloat.normalize Format.binary64 n e .positive))) := by
  have hcompare : compare n 0 = .gt := Int.compare_eq_gt.mpr hn
  rw [UnpackedFloat.normalize, hcompare]
  exact (rounds_round (by omega) .positive).nonneg

namespace Nonneg

variable {x y : Float}

theorem pos_of_not_le (hx : Nonneg x) (h : ¬ x ≤ 0) : 0 < x := by
  rw [le_iff, unpack_zero] at h
  rw [lt_iff, unpack_zero]
  rcases nonneg_iff.mp hx with ⟨s, hx⟩ | ⟨m, e, hm, hx⟩ | hx
  · rw [hx] at h
    exact absurd rfl h
  · rw [hx]
    rfl
  · rw [hx]
    rfl

/-- Of what is not negative only an infinity is not finite. -/
theorem eq_infinity (hx : Nonneg x) (h : isFinite x = false) : x = infinity := by
  rcases eq_of_isFinite_eq_false h with rfl | rfl | rfl
  · exact absurd hx.1 (by decide)
  · rfl
  · exact absurd (neg_infinity_lt rfl) hx.2

/-- Sums may overflow, but they stay defined and do not become negative. -/
theorem add (hx : Nonneg x) (hy : Nonneg y) : Nonneg (x + y) := by
  have hadd : x + y = Float.ofModel (.pack
      (UnpackedFloat.add Format.binary64 x.toModel.unpack y.toModel.unpack)) := rfl
  rcases nonneg_iff.mp hx with ⟨s, hzero⟩ | ⟨m, e, hm, hfinite⟩ | hinf
  · -- nothing is added, or a zero
    rcases nonneg_iff.mp hy with ⟨t, hzero'⟩ | ⟨m, e, hm, hfinite⟩ | hinf
    · rw [hadd, hzero, hzero']
      simp only [UnpackedFloat.add]
      split
      · exact nonneg_zero s
      · exact nonneg_zero .positive
    · rw [hadd, hzero, hfinite]
      simp only [UnpackedFloat.add]
      rwa [← hfinite, pack_unpack]
    · rw [hadd, hzero, hinf]
      exact nonneg_infinity
  · rcases nonneg_iff.mp hy with ⟨t, hzero⟩ | ⟨n, f, hn, hfinite'⟩ | hinf
    · rw [hadd, hfinite, hzero]
      simp only [UnpackedFloat.add]
      rwa [← hfinite, pack_unpack]
    · rw [hadd, hfinite, hfinite']
      simp only [UnpackedFloat.add, decreaseExponent, Nat.shiftLeft_eq]
      refine nonneg_normalize (Int.add_pos ?_ ?_) _
      · exact Int.natCast_pos.mpr (Nat.mul_pos hm (Nat.pow_pos two_pos))
      · exact Int.natCast_pos.mpr (Nat.mul_pos hn (Nat.pow_pos two_pos))
    · rw [hadd, hfinite, hinf]
      exact nonneg_infinity
  · rcases nonneg_iff.mp hy with ⟨t, hzero⟩ | ⟨n, f, hn, hfinite⟩ | hinf'
    · rw [hadd, hinf, hzero]
      exact nonneg_infinity
    · rw [hadd, hinf, hfinite]
      exact nonneg_infinity
    · rw [hadd, hinf, hinf']
      exact nonneg_infinity

/-- So do products with a finite value, unless an infinity is multiplied by 0. -/
theorem mul (hx : Nonneg x) (hy : Nonneg y) (hfx : isFinite x = true)
    (h : 0 < x ∨ isFinite y = true) : Nonneg (x * y) := by
  have hmul : x * y = Float.ofModel (.pack
      (UnpackedFloat.mul Format.binary64 x.toModel.unpack y.toModel.unpack)) := rfl
  have hmodelx : x.toModel.unpack.isFinite = true := hfx
  have hmodel : 0 < x ∨ y.toModel.unpack.isFinite = true := h
  rw [lt_iff, unpack_zero] at hmodel
  -- only a zero times an infinity is undefined, which the condition excludes
  rcases nonneg_iff.mp hx with ⟨s, hzero⟩ | ⟨m, e, hm, hfinite⟩ | hinf
  · rcases nonneg_iff.mp hy with ⟨t, hzero'⟩ | ⟨n, f, hn, hfinite⟩ | hinf
    · rw [hmul, hzero, hzero']
      exact nonneg_zero _
    · rw [hmul, hzero, hfinite]
      exact nonneg_zero _
    · rw [hzero, hinf] at hmodel
      rcases hmodel with hlt | hfinite
      · cases hlt
      · cases hfinite
  · rcases nonneg_iff.mp hy with ⟨t, hzero⟩ | ⟨n, f, hn, hfinite'⟩ | hinf
    · rw [hmul, hfinite, hzero]
      exact nonneg_zero _
    · rw [hmul, hfinite, hfinite']
      exact (rounds_mul_canonical (finite_of_unpack hfinite).toCanonical
        (finite_of_unpack hfinite').toCanonical .positive .positive).nonneg
    · rw [hmul, hfinite, hinf]
      exact nonneg_infinity
  · rw [hinf] at hmodelx
    cases hmodelx

/-- And quotients by a positive value, unless both have overflowed. -/
theorem div (hx : Nonneg x) (hy : Nonneg y) (hpos : 0 < y)
    (h : isFinite x = true ∨ isFinite y = true) : Nonneg (x / y) := by
  have hdiv : x / y = Float.ofModel (.pack
      (UnpackedFloat.div Format.binary64 x.toModel.unpack y.toModel.unpack)) := rfl
  have hmodel : x.toModel.unpack.isFinite = true ∨ y.toModel.unpack.isFinite = true := h
  rw [lt_iff, unpack_zero] at hpos
  rcases nonneg_iff.mp hy with ⟨t, hzero⟩ | ⟨n, f, hn, hfinite⟩ | hinf
  · -- the divisor is no zero
    rw [hzero] at hpos
    cases hpos
  · rcases nonneg_iff.mp hx with ⟨s, hzero⟩ | ⟨m, e, hm, hfinite'⟩ | hinf
    · rw [hdiv, hzero, hfinite]
      exact nonneg_zero _
    · rw [hdiv, hfinite', hfinite]
      exact (rounds_div .positive .positive hm hn).nonneg
    · rw [hdiv, hinf, hfinite]
      exact nonneg_infinity
  · rcases nonneg_iff.mp hx with ⟨s, hzero⟩ | ⟨m, e, hm, hfinite⟩ | hinf'
    · rw [hdiv, hzero, hinf]
      exact nonneg_zero _
    · rw [hdiv, hfinite, hinf]
      exact nonneg_zero _
    · -- two infinities have no quotient
      rw [hinf', hinf] at hmodel
      rcases hmodel with hfinite | hfinite
      · cases hfinite
      · cases hfinite

/-- A quotient of which both sides have overflowed is undefined, and no other one. -/
theorem isNaN_div_iff (hx : Nonneg x) (hy : Nonneg y) (hpos : 0 < y) :
    isNaN (x / y) = true ↔ isFinite x = false ∧ isFinite y = false := by
  constructor
  · intro hnan
    by_contra hnot
    have hfinite : isFinite x = true ∨ isFinite y = true := by
      rwa [not_and_or, Bool.not_eq_false, Bool.not_eq_false] at hnot
    have hdefined := (hx.div hy hpos hfinite).1
    rw [hnan] at hdefined
    cases hdefined
  · rintro ⟨hfx, hfy⟩
    rw [hx.eq_infinity hfx, hy.eq_infinity hfy]
    rfl

/-- A sum of values that are not negative. -/
theorem sum {l : List Float} (h : ∀ v ∈ l, Nonneg v) : Nonneg (Number.sum l) := by
  have hfold : ∀ {start : Float}, Nonneg start → Nonneg (l.foldl (· + ·) start) := by
    induction l with
    | nil => exact id
    | cons v l ih =>
      intro start hstart
      exact ih (fun u hu => h u (List.mem_cons_of_mem _ hu)) (hstart.add (h v List.mem_cons_self))
  exact hfold (nonneg_zero .negative)

/-- A defined value that is moved between 0 and a limit above. -/
theorem clamp {hi : Float} (hhi : Nonneg hi) (hx : isNaN x = false) :
    Nonneg (Number.clamp 0 hi x) := by
  have hraised : Nonneg (if x < 0 then 0 else x) := by
    split
    · exact nonneg_zero .positive
    · exact ⟨hx, ‹_›⟩
  unfold Number.clamp
  generalize (if x < 0 then 0 else x) = raised at hraised
  show Nonneg (if hi < raised then hi else raised)
  split
  · exact hhi
  · exact hraised

end Nonneg

end FactorStudy.Double
