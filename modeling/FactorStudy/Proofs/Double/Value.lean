import FactorStudy.Proofs.Decimal.Whole

/-!
# The values of doubles

A defined double stands for a number: a finite one for its magnitude with its sign, an infinity for
the power of two that comes after the greatest double (`value`). Doubles compare as these numbers do
(`compare_eq`), so statements about the order of doubles are statements about rational numbers.

Sums, differences and products are the numbers that they should be, rounded (`RoundsTo`), and a
larger number is not rounded to a smaller double (`RoundsTo.le`). As every double is rounded to
itself (`roundsTo_value`), this also says that no operation rounds past a double.
-/

namespace FactorStudy.Double

open Number
open Float.Model (Format UnpackedFloat)
open Float.Model.UnpackedFloat hiding infinity

/-! ## Values -/

/-- A magnitude with a sign. -/
def signed : Sign → ℚ → ℚ
  | .negative, q => -q
  | .positive, q => q

theorem signed_neg (s : Sign) (q : ℚ) : signed (-s) q = -signed s q := by
  cases s
  · exact (InvolutiveNeg.neg_neg q).symm
  · rfl

theorem signed_zero (s : Sign) : signed s 0 = 0 := by
  cases s
  · exact neg_zero
  · rfl

theorem signed_signed (s : Sign) (q : ℚ) : signed s (signed s q) = q := by
  cases s
  · exact InvolutiveNeg.neg_neg q
  · rfl

theorem signed_mul (s t : Sign) (p q : ℚ) : signed (s * t) (p * q) = signed s p * signed t q := by
  cases s <;> cases t
  · exact (neg_mul_neg p q).symm
  · exact (neg_mul p q).symm
  · exact (mul_neg p q).symm
  · rfl

/-- The first power of two beyond the doubles. -/
def limit : ℚ := 2 ^ 1024

theorem limit_pos : 0 < limit := pow_pos two_pos 1024

theorem limit_eq : limit = (2 ^ 52 : ℕ) * 2 ^ (972 : ℤ) := by
  rw [limit, zpow_ofNat, Nat.cast_pow, Nat.cast_ofNat, ← pow_add]

theorem Finite.value_pos {d : Decimal.Dyadic} (hd : Finite d) : 0 < d.value :=
  Near.pos hd.toCanonical d.near_value

theorem Finite.value_lt_limit {d : Decimal.Dyadic} (hd : Finite d) : d.value < limit :=
  Near.lt_two_pow hd d.near_value

theorem limit_le_value {d : Decimal.Dyadic} (hd : d.Canonical) (h : 971 < d.exponent) :
    limit ≤ d.value := by
  have hlong : ((2 ^ 52 : ℕ) : ℚ) ≤ d.mantissa := by exact_mod_cast hd.normal.resolve_right (by omega)
  have hpow : (2 : ℚ) ^ (972 : ℤ) ≤ 2 ^ d.exponent := zpow_le_zpow_right₀ one_le_two h
  rw [limit_eq]
  exact mul_le_mul hlong hpow (by positivity) (by positivity)

/-- The number that a double stands for. -/
def value (x : Float) : ℚ :=
  match x.toModel.unpack with
  | .notANumber => 0
  | .infinity s => signed s limit
  | .zero _ => 0
  | .finite s m e _ => signed s (⟨m, e⟩ : Decimal.Dyadic).value

section Read

variable {x : Float} {s : Sign}

theorem isNaN_of_unpack {u : UnpackedFloat} (h : x.toModel.unpack = u) (hu : u.isNaN = false) :
    isNaN x = false := by
  rw [← hu, ← h]
  rfl

theorem value_of_unpack_infinity (h : x.toModel.unpack = .infinity s) : value x = signed s limit := by
  rw [value, h]

theorem value_of_unpack_zero (h : x.toModel.unpack = .zero s) : value x = 0 := by
  rw [value, h]

theorem value_of_unpack_finite {d : Decimal.Dyadic} {hd : 0 < d.mantissa}
    (h : x.toModel.unpack = .finite s d.mantissa d.exponent hd) : value x = signed s d.value := by
  rw [value, h]

/-- A double is undefined, an infinity, a zero or a magnitude, with its value. -/
theorem read_cases (x : Float) : x = nan ∨
    (∃ s, x.toModel.unpack = .infinity s ∧ value x = signed s limit) ∨
    (∃ s, x.toModel.unpack = .zero s ∧ value x = 0) ∨
    ∃ (s : Sign) (d : Decimal.Dyadic) (hd : Finite d),
      x.toModel.unpack = .finite s d.mantissa d.exponent hd.pos ∧ value x = signed s d.value := by
  cases h : x.toModel.unpack with
  | notANumber => exact Or.inl (eq_of_unpack (h.trans unpack_nan.symm))
  | infinity s => exact Or.inr (Or.inl ⟨s, rfl, value_of_unpack_infinity h⟩)
  | zero s => exact Or.inr (Or.inr (Or.inl ⟨s, rfl, value_of_unpack_zero h⟩))
  | finite s m e hm =>
    have hd : Finite ⟨m, e⟩ := finite_of_unpack h
    exact Or.inr (Or.inr (Or.inr ⟨s, ⟨m, e⟩, hd, rfl, value_of_unpack_finite (d := ⟨m, e⟩) h⟩))

end Read

/-! ## The order -/

section Order

variable {c d : Decimal.Dyadic}

theorem value_lt_of_exponent (hc : c.Canonical) (hd : d.Canonical) (h : c.exponent < d.exponent) :
    c.value < d.value := by
  have hlow := hc.low
  have hlong : (2 : ℚ) ^ 52 ≤ d.mantissa := by exact_mod_cast hd.normal.resolve_right (by omega)
  calc c.value < 2 ^ 52 * 2 ^ d.exponent := value_lt_grid hc h
    _ ≤ d.value := mul_le_mul_of_nonneg_right hlong (by positivity)

/-- Magnitudes compare by their exponents first. -/
theorem compare_magnitudes (hc : c.Canonical) (hd : d.Canonical) :
    (compare c.exponent d.exponent).then (compare c.mantissa d.mantissa) =
      compare c.value d.value := by
  -- canonical mantissas all have the same length, or the exponent is the lowest
  rcases lt_trichotomy c.exponent d.exponent with h | h | h
  · rw [compare_lt_iff_lt.mpr h, compare_lt_iff_lt.mpr (value_lt_of_exponent hc hd h)]
    rfl
  · have hpow : (0 : ℚ) < 2 ^ d.exponent := by positivity
    rw [compare_eq_iff_eq.mpr h, Decimal.Dyadic.value, Decimal.Dyadic.value, h]
    show compare c.mantissa d.mantissa = _
    rcases lt_trichotomy c.mantissa d.mantissa with hm | hm | hm
    · rw [compare_lt_iff_lt.mpr hm, compare_lt_iff_lt.mpr]
      exact mul_lt_mul_of_pos_right (by exact_mod_cast hm) hpow
    · rw [compare_eq_iff_eq.mpr hm, hm, compare_eq_iff_eq.mpr rfl]
    · rw [compare_gt_iff_gt.mpr hm, compare_gt_iff_gt.mpr]
      exact mul_lt_mul_of_pos_right (by exact_mod_cast hm) hpow
  · rw [compare_gt_iff_gt.mpr h, compare_gt_iff_gt.mpr (value_lt_of_exponent hd hc h)]
    rfl

theorem compare_neg_neg (p q : ℚ) : compare (-p) (-q) = (compare p q).swap := by
  rcases lt_trichotomy p q with h | rfl | h
  · rw [compare_lt_iff_lt.mpr h, compare_gt_iff_gt.mpr (neg_lt_neg h)]
    rfl
  · rw [compare_eq_iff_eq.mpr rfl, compare_eq_iff_eq.mpr rfl]
    rfl
  · rw [compare_gt_iff_gt.mpr h, compare_lt_iff_lt.mpr (neg_lt_neg h)]
    rfl

/-- **Doubles compare as the numbers that they stand for.** -/
theorem compare_eq {x y : Float} (hx : isNaN x = false) (hy : isNaN y = false) :
    UnpackedFloat.compare x.toModel.unpack y.toModel.unpack =
      some (compare (value x) (value y)) := by
  have hlt : ∀ {p q : ℚ}, p < q → some Ordering.lt = some (compare p q) := by
    intro p q h
    rw [compare_lt_iff_lt.mpr h]
  have hgt : ∀ {p q : ℚ}, q < p → some Ordering.gt = some (compare p q) := by
    intro p q h
    rw [compare_gt_iff_gt.mpr h]
  have hlimit := limit_pos
  rcases read_cases x with rfl | ⟨s, hu, hp⟩ | ⟨s, hu, hp⟩ | ⟨s, c, hc, hu, hp⟩
  · cases hx
  all_goals
    rcases read_cases y with rfl | ⟨t, hv, hq⟩ | ⟨t, hv, hq⟩ | ⟨t, d, hd, hv, hq⟩
    · cases hy
    all_goals rw [hu, hv, hp, hq]
  · -- two infinities
    cases s <;> cases t
    · rw [compare_eq_iff_eq.mpr rfl]
      rfl
    · exact hlt (by simp only [signed]; linarith)
    · exact hgt (by simp only [signed]; linarith)
    · rw [compare_eq_iff_eq.mpr rfl]
      rfl
  · cases s
    · exact hlt (by simp only [signed]; linarith)
    · exact hgt (by simp only [signed]; linarith)
  · have hpos := hd.value_pos
    have hsmall := hd.value_lt_limit
    cases s <;> cases t
    · exact hlt (by simp only [signed]; linarith)
    · exact hlt (by simp only [signed]; linarith)
    · exact hgt (by simp only [signed]; linarith)
    · exact hgt (by simp only [signed]; linarith)
  · cases t
    · exact hgt (by simp only [signed]; linarith)
    · exact hlt (by simp only [signed]; linarith)
  · rw [compare_eq_iff_eq.mpr rfl]
    rfl
  · have hpos := hd.value_pos
    cases t
    · exact hgt (by simp only [signed]; linarith)
    · exact hlt (by simp only [signed]; linarith)
  · have hpos := hc.value_pos
    have hsmall := hc.value_lt_limit
    cases s <;> cases t
    · exact hgt (by simp only [signed]; linarith)
    · exact hlt (by simp only [signed]; linarith)
    · exact hgt (by simp only [signed]; linarith)
    · exact hlt (by simp only [signed]; linarith)
  · have hpos := hc.value_pos
    cases s
    · exact hlt (by simp only [signed]; linarith)
    · exact hgt (by simp only [signed]; linarith)
  · -- two magnitudes
    have hposc := hc.value_pos
    have hposd := hd.value_pos
    have hcompare := compare_magnitudes hc.toCanonical hd.toCanonical
    cases s <;> cases t
    · rw [signed, signed, compare_neg_neg, ← hcompare]
      rfl
    · exact hlt (by simp only [signed]; linarith)
    · exact hgt (by simp only [signed]; linarith)
    · rw [signed, signed, ← hcompare]
      rfl

section Defined

variable {x y : Float} (hx : isNaN x = false) (hy : isNaN y = false)

include hx hy

theorem lt_iff_value : x < y ↔ value x < value y := by
  rw [lt_iff, compare_eq hx hy, Option.some.injEq, compare_lt_iff_lt]

theorem le_iff_value : x ≤ y ↔ value x ≤ value y := by
  rw [le_iff, compare_eq hx hy, Option.any_some, ← Ordering.ne_gt_iff_isLE, compare_gt_iff_gt,
    not_lt]

theorem beq_iff_value : (x == y) = true ↔ value x = value y := by
  rw [beq_iff, compare_eq hx hy, Option.some.injEq, compare_eq_iff_eq]

end Defined

end Order

@[simp] theorem value_zero : value 0 = 0 := value_of_unpack_zero unpack_zero

theorem beq_self {x : Float} (hx : isNaN x = false) : (x == x) = true :=
  (beq_iff_value hx hx).mpr rfl

/-- What counts as 0 is defined and stands for 0. -/
theorem value_of_beq_zero {x : Float} (h : (x == 0) = true) : isNaN x = false ∧ value x = 0 := by
  have hdef : isNaN x = false := by
    by_contra hnan
    rw [eq_nan_of_isNaN (Bool.eq_true_of_not_eq_false hnan)] at h
    cases h
  have heq := (beq_iff_value hdef rfl).mp h
  rw [value_zero] at heq
  exact ⟨hdef, heq⟩

theorem isNaN_neg (x : Float) : isNaN (-x) = isNaN x := by
  show (-x).toModel.unpack.isNaN = x.toModel.unpack.isNaN
  rw [unpack_neg]
  cases x.toModel.unpack <;> rfl

theorem value_neg (x : Float) : value (-x) = -value x := by
  rw [value, value, unpack_neg]
  cases x.toModel.unpack with
  | notANumber => exact neg_zero.symm
  | infinity s => exact signed_neg s limit
  | zero s => exact neg_zero.symm
  | finite s m e hm => exact signed_neg s _

/-- A finite double is within the limits. -/
theorem isFinite_iff_value {x : Float} (hx : isNaN x = false) :
    isFinite x = true ↔ |value x| < limit := by
  have hmodel : isFinite x = x.toModel.unpack.isFinite := rfl
  have hlimit := limit_pos
  rcases read_cases x with rfl | ⟨s, hu, hp⟩ | ⟨s, hu, hp⟩ | ⟨s, d, hd, hu, hp⟩
  · cases hx
  · rw [hmodel, hu, hp]
    cases s
    · simp [signed, UnpackedFloat.isFinite, abs_of_pos hlimit]
    · simp [signed, UnpackedFloat.isFinite, abs_of_pos hlimit]
  · rw [hmodel, hu, hp]
    simp [UnpackedFloat.isFinite, hlimit]
  · have hpos := hd.value_pos
    have hsmall := hd.value_lt_limit
    rw [hmodel, hu, hp]
    cases s
    · simp [signed, UnpackedFloat.isFinite, abs_of_pos hpos, hsmall]
    · simp [signed, UnpackedFloat.isFinite, abs_of_pos hpos, hsmall]

/-! ## Rounding -/

/-- `x` is the double that `q` is rounded to, an infinity if it is too large. -/
def RoundsTo (x : Float) (q : ℚ) : Prop :=
  isNaN x = false ∧ ∃ s v, 0 ≤ signed s q ∧ Rounded (signed s q) v ∧ value x = signed s (min v limit)

namespace RoundsTo

variable {x y : Float} {p q : ℚ}

theorem of_magnitude {s : Sign} {v : ℚ} (hdef : isNaN x = false) (hq : 0 ≤ q) (hv : Rounded q v)
    (hvalue : value x = signed s (min v limit)) : RoundsTo x (signed s q) :=
  ⟨hdef, s, v, by rwa [signed_signed], by rwa [signed_signed], hvalue⟩

theorem neg (h : RoundsTo x q) : RoundsTo (-x) (-q) := by
  obtain ⟨hdef, s, v, hpos, hv, hvalue⟩ := h
  have hsigned : signed (-s) (-q) = signed s q := by
    cases s
    · rfl
    · exact InvolutiveNeg.neg_neg q
  refine ⟨(isNaN_neg x).trans hdef, -s, v, ?_, ?_, ?_⟩
  · rwa [hsigned]
  · rwa [hsigned]
  · rw [value_neg, hvalue, signed_neg]

/-- A larger number is not rounded to a smaller double. -/
theorem le (h : RoundsTo x p) (h' : RoundsTo y q) (hpq : p ≤ q) : x ≤ y := by
  obtain ⟨hdef, s, v, hpos, hv, hvalue⟩ := h
  obtain ⟨hdef', t, w, hpos', hw, hvalue'⟩ := h'
  have hlimit := limit_pos
  have hv₀ : 0 ≤ min v limit := le_min hv.nonneg hlimit.le
  have hw₀ : 0 ≤ min w limit := le_min hw.nonneg hlimit.le
  rw [le_iff_value hdef hdef', hvalue, hvalue']
  cases s <;> cases t <;> simp only [signed] at *
  · exact neg_le_neg (min_le_min_right _ (hw.mono hv (neg_le_neg hpq)))
  · linarith
  · -- both numbers are 0
    have hzero := hv.mono Rounded.zero (by linarith)
    have hzero' := hw.mono Rounded.zero (by linarith)
    linarith [min_le_left v limit, min_le_left w limit]
  · exact min_le_min_right _ (hv.mono hw hpq)

/-- Numbers that are equal are rounded to doubles that are. -/
theorem value_eq (h : RoundsTo x q) (h' : RoundsTo y q) : value x = value y :=
  le_antisymm ((le_iff_value h.1 h'.1).mp (h.le h' le_rfl))
    ((le_iff_value h'.1 h.1).mp (h'.le h le_rfl))

theorem beq (h : RoundsTo x q) (h' : RoundsTo y q) : (x == y) = true :=
  (beq_iff_value h.1 h'.1).mpr (h.value_eq h')

end RoundsTo

/-- What an operation rounds and writes to bits. -/
theorem Rounds.roundsTo {u : UnpackedFloat} {s : Sign} {q : ℚ} (h : Rounds u s q) (hq : 0 ≤ q) :
    RoundsTo (Float.ofModel (.pack u)) (signed s q) := by
  obtain ⟨v, hv, ⟨rfl, rfl⟩ | ⟨d, hd, rfl, rfl⟩⟩ := h.exists_rounded
  · have hzero := unpack_ofModel (.zero s)
    rw [unpack_pack_zero] at hzero
    refine .of_magnitude (isNaN_of_unpack hzero rfl) hq hv ?_
    rw [value_of_unpack_zero hzero, min_eq_left limit_pos.le, signed_zero]
  · have hread := unpack_ofModel (.finite s d.mantissa d.exponent hd.pos)
    -- beyond the greatest exponent an infinity is written
    by_cases hhigh : d.exponent ≤ 971
    · have hfinite : Finite d := ⟨hd, hhigh⟩
      rw [Double.unpack_pack hfinite] at hread
      refine .of_magnitude (isNaN_of_unpack hread rfl) hq hv ?_
      rw [value_of_unpack_finite hread, min_eq_left hfinite.value_lt_limit.le]
    · rw [unpack_pack_overflow hd (by omega)] at hread
      refine .of_magnitude (isNaN_of_unpack hread rfl) hq hv ?_
      rw [value_of_unpack_infinity hread, min_eq_right (limit_le_value hd (by omega))]

/-- Every defined double is the one that its value is rounded to. -/
theorem roundsTo_value {x : Float} (hx : isNaN x = false) : RoundsTo x (value x) := by
  rcases read_cases x with rfl | ⟨s, -, hvalue⟩ | ⟨s, -, hvalue⟩ | ⟨s, d, hd, -, hvalue⟩
  · cases hx
  · -- an infinity counts as the power of two where overflow begins
    have hself : Rounded limit limit := by
      rw [limit_eq]
      exact Rounded.of_short (by decide) (by decide) (Or.inl le_rfl)
    rw [hvalue]
    refine .of_magnitude hx limit_pos.le hself ?_
    rw [hvalue, min_self]
  · rw [hvalue, ← signed_zero .positive]
    refine .of_magnitude hx le_rfl Rounded.zero ?_
    rw [hvalue, min_eq_left limit_pos.le, signed_zero]
  · rw [hvalue]
    refine .of_magnitude hx hd.value_pos.le (Rounded.of_canonical hd.toCanonical) ?_
    rw [hvalue, min_eq_left hd.value_lt_limit.le]

theorem roundsTo_zero (s : Sign) : RoundsTo (Float.ofModel (.pack (.zero s))) 0 := by
  have hread := unpack_ofModel (.zero s)
  rw [unpack_pack_zero] at hread
  have h := roundsTo_value (isNaN_of_unpack hread rfl)
  rwa [value_of_unpack_zero hread] at h

/-- An integer with an exponent is rounded by its magnitude. -/
theorem roundsTo_normalize (n e : ℤ) (s : Sign) :
    RoundsTo (Float.ofModel (.pack (UnpackedFloat.normalize Format.binary64 n e s))) (n * 2 ^ e) := by
  rw [UnpackedFloat.normalize]
  -- the sign is split off first, since only magnitudes are rounded
  rcases lt_trichotomy n 0 with hn | rfl | hn
  · obtain ⟨k, hk⟩ : ∃ k : ℕ, n = -k := ⟨(-n).toNat, by omega⟩
    have hcompare : compare n 0 = .lt := Int.compare_eq_lt.mpr hn
    have hnat : (-n).toNat = k := by omega
    have hvalue : (n : ℚ) * 2 ^ e = signed .negative (k * 2 ^ e) := by
      rw [hk, signed]
      push_cast
      ring
    rw [hcompare, hvalue]
    simp only [hnat]
    exact (rounds_round (by omega) .negative).roundsTo (by positivity)
  · rw [Int.cast_zero, zero_mul]
    exact roundsTo_zero s
  · obtain ⟨k, rfl⟩ := Int.eq_ofNat_of_zero_le hn.le
    have hcompare : compare (k : ℤ) 0 = .gt := Int.compare_eq_gt.mpr hn
    rw [hcompare, Int.cast_natCast]
    simp only [Int.toNat_natCast]
    exact (rounds_round (by omega) .positive).roundsTo (by positivity)

/-- A magnitude in finer units. -/
theorem apply_mul_zpow (s : Sign) (d : Decimal.Dyadic) {e : ℤ} (he : e ≤ d.exponent) :
    ((s.apply (d.mantissa * 2 ^ (d.exponent - e).toNat : ℕ) : ℤ) : ℚ) * 2 ^ e = signed s d.value := by
  obtain ⟨k, hk⟩ : ∃ k : ℕ, d.exponent = e + k := ⟨(d.exponent - e).toNat, by omega⟩
  have hnat : (d.exponent - e).toNat = k := by omega
  rw [hnat, Decimal.Dyadic.value, hk, zpow_add₀ two_ne_zero, zpow_natCast]
  cases s
  · simp only [Sign.apply, signed]
    push_cast
    ring
  · simp only [Sign.apply, signed]
    push_cast
    ring

/-! ## Operations -/

section Operations

/-- A finite double is a zero or a magnitude. -/
theorem finite_cases {x : Float} (hx : isFinite x = true) :
    (∃ s, x.toModel.unpack = .zero s ∧ value x = 0) ∨
    ∃ (s : Sign) (d : Decimal.Dyadic) (hd : Finite d),
      x.toModel.unpack = .finite s d.mantissa d.exponent hd.pos ∧ value x = signed s d.value := by
  have hmodel : x.toModel.unpack.isFinite = true := hx
  rcases read_cases x with rfl | ⟨s, hread, -⟩ | h | h
  · cases hx
  · rw [hread] at hmodel
    cases hmodel
  · exact Or.inl h
  · exact Or.inr h

variable {x y : Float} (hx : isFinite x = true) (hy : isFinite y = true)

include hx hy

theorem roundsTo_mul : RoundsTo (x * y) (value x * value y) := by
  have hmul : x * y = Float.ofModel (.pack
      (UnpackedFloat.mul Format.binary64 x.toModel.unpack y.toModel.unpack)) := rfl
  rcases finite_cases hx with ⟨s, hu, hp⟩ | ⟨s, c, hc, hu, hp⟩
  · rw [hmul, hu, hp, zero_mul]
    rcases finite_cases hy with ⟨t, hv, -⟩ | ⟨t, d, hd, hv, -⟩
    · rw [hv]
      exact roundsTo_zero _
    · rw [hv]
      exact roundsTo_zero _
  · rcases finite_cases hy with ⟨t, hv, hq⟩ | ⟨t, d, hd, hv, hq⟩
    · rw [hmul, hu, hv, hq, mul_zero]
      exact roundsTo_zero _
    · rw [hmul, hu, hv, hp, hq, ← signed_mul]
      exact (rounds_mul_canonical hc.toCanonical hd.toCanonical s t).roundsTo
        (mul_nonneg hc.value_pos.le hd.value_pos.le)

/-- A sum is computed in units of the smaller exponent and then rounded. -/
theorem roundsTo_add : RoundsTo (x + y) (value x + value y) := by
  have hadd : x + y = Float.ofModel (.pack
      (UnpackedFloat.add Format.binary64 x.toModel.unpack y.toModel.unpack)) := rfl
  rcases finite_cases hx with ⟨s, hu, hp⟩ | ⟨s, c, hc, hu, hp⟩
  · rw [hp, zero_add]
    rcases finite_cases hy with ⟨t, hv, hq⟩ | ⟨t, d, hd, hv, hq⟩
    · -- two zeros
      rw [hadd, hu, hv, hq]
      simp only [UnpackedFloat.add]
      split
      · exact roundsTo_zero s
      · exact roundsTo_zero .positive
    · -- a zero changes nothing, and nothing is rounded
      have hsum : x + y = y := by
        rw [hadd, hu, hv]
        simp only [UnpackedFloat.add]
        rw [← hv, pack_unpack]
      rw [hsum]
      exact roundsTo_value (isNaN_of_isFinite hy)
  · rcases finite_cases hy with ⟨t, hv, hq⟩ | ⟨t, d, hd, hv, hq⟩
    · have hsum : x + y = x := by
        rw [hadd, hu, hv]
        simp only [UnpackedFloat.add]
        rw [← hu, pack_unpack]
      rw [hsum, hq, add_zero]
      exact roundsTo_value (isNaN_of_isFinite hx)
    · rw [hadd, hu, hv, hp, hq]
      simp only [UnpackedFloat.add, decreaseExponent, Nat.shiftLeft_eq]
      -- both are whole numbers of the smaller unit, and these are added exactly
      rw [← apply_mul_zpow s c (min_le_left c.exponent d.exponent),
        ← apply_mul_zpow t d (min_le_right c.exponent d.exponent), ← add_mul, ← Int.cast_add]
      exact roundsTo_normalize _ _ .positive

omit hx hy in
/-- A difference is a sum. -/
theorem sub_eq (x y : Float) : x - y = x + -y := by
  have hsub : x.toModel.unpack.sub Format.binary64 y.toModel.unpack =
      x.toModel.unpack.add Format.binary64 (-y).toModel.unpack := by
    rw [unpack_neg]
    cases x.toModel.unpack with
    | notANumber => cases y.toModel.unpack <;> rfl
    | infinity s =>
      cases y.toModel.unpack with
      | infinity t => cases t <;> rfl
      | _ => rfl
    | zero s =>
      cases y.toModel.unpack with
      | zero t => cases t <;> rfl
      | _ => rfl
    | finite s m e hm =>
      cases y.toModel.unpack with
      | finite t n f hn =>
        -- the opposite mantissa is added
        have happly : ∀ k, (-t).apply k = -t.apply k := by
          intro k
          cases t
          · exact (InvolutiveNeg.neg_neg k).symm
          · rfl
        simp only [UnpackedFloat.sub, UnpackedFloat.neg, UnpackedFloat.add, happly,
          Int.sub_eq_add_neg]
      | _ => rfl
  exact congrArg (fun u => Float.ofModel (.pack u)) hsub

theorem roundsTo_sub : RoundsTo (x - y) (value x - value y) := by
  have hsum := roundsTo_add hx ((isFinite_neg y).trans hy)
  rwa [value_neg, ← sub_eq_add_neg, ← sub_eq] at hsum

/-- Differences the two ways around are opposites. -/
theorem sub_beq_neg_sub : (x - y == -(y - x)) = true := by
  have hback := (roundsTo_sub hy hx).neg
  rw [neg_sub] at hback
  exact (roundsTo_sub hx hy).beq hback

end Operations

/-- A count is the number that it should be, rounded. -/
theorem roundsTo_ofNat (n : ℕ) : RoundsTo (ofNat n : Float) n := by
  rcases Nat.eq_zero_or_pos n with rfl | hpos
  · exact roundsTo_zero .positive
  · obtain ⟨u, hrounds, hread⟩ := exists_rounds (e := 0) hpos (by decide) (by omega)
    have hcount : (ofNat n : Float) = Float.ofModel (.pack u) := hread
    rw [hcount]
    rw [zpow_zero, mul_one] at hrounds
    exact hrounds.roundsTo n.cast_nonneg

end FactorStudy.Double
