import FactorStudy.Proofs.Double.TotalOrder

/-!
# Doubles next to a number

Rounding takes the nearest double (`RoundsTo.nearest`), so a number that was rounded up has a double
close below it (`exists_below`). Whoever takes a share of the rounded number, less than all of it,
gets at most the number itself, rounding included (`RoundsTo.share_le`): shares of a difference do
not lead past its end.

The counts below and above a double, which the program takes from its bits, are the integers next to
its value (`floorNat_spec`, `ceilNat_spec`), and what is left above the count below is exact
(`value_sub_floorNat`).
-/

namespace FactorStudy.Double

open Number

/-! ## Doubles with a given value -/

theorem exists_of_finite {d : Decimal.Dyadic} (hd : Finite d) :
    ∃ x : Float, isFinite x = true ∧ value x = d.value := by
  have hread := unpack_ofModel (.finite .positive d.mantissa d.exponent hd.pos)
  rw [unpack_pack hd] at hread
  exact ⟨_, isFinite_of_unpack_finite hread, value_of_unpack_finite hread⟩

/-- Units of a power of two are a double as long as a mantissa can count them. -/
theorem exists_value {n : ℕ} (hlt : n < 2 ^ 53) {e : ℤ} (hlow : -1074 ≤ e) (hhigh : e ≤ 971) :
    ∃ x : Float, isFinite x = true ∧ value x = n * 2 ^ e := by
  rcases Nat.eq_zero_or_pos n with rfl | hpos
  · refine ⟨0, rfl, ?_⟩
    rw [value_zero, Nat.cast_zero, zero_mul]
  · -- the units are made smaller until the mantissa is long or the units are the smallest
    have hlog : n.log2 < 53 := (Nat.log2_lt (Nat.ne_of_gt hpos)).mpr hlt
    obtain ⟨k, hk⟩ : ∃ k : ℕ, k = min (52 - n.log2) (e + 1074).toNat := ⟨_, rfl⟩
    have hshort : n * 2 ^ k < 2 ^ 53 := by
      calc n * 2 ^ k < 2 ^ (n.log2 + 1) * 2 ^ k :=
            Nat.mul_lt_mul_of_pos_right Nat.lt_log2_self (Nat.pow_pos (by decide))
        _ = 2 ^ (n.log2 + 1 + k) := (Nat.pow_add ..).symm
        _ ≤ 2 ^ 53 := Nat.pow_le_pow_right (by decide) (by omega)
    have hnormal : 2 ^ 52 ≤ n * 2 ^ k ∨ e - k = -1074 := by
      rcases Nat.le_total (52 - n.log2) (e + 1074).toNat with hle | hle
      · left
        calc 2 ^ 52 = 2 ^ n.log2 * 2 ^ k := by rw [← Nat.pow_add]; congr 1; omega
          _ ≤ n * 2 ^ k := Nat.mul_le_mul_right _ (Nat.log2_self_le (Nat.ne_of_gt hpos))
      · right
        omega
    have hd : Finite ⟨n * 2 ^ k, e - k⟩ :=
      ⟨⟨Nat.mul_pos hpos (Nat.pow_pos (by decide)), hshort, by simp only; omega, hnormal⟩,
        by simp only; omega⟩
    obtain ⟨x, hx, hxd⟩ := exists_of_finite hd
    refine ⟨x, hx, hxd.trans ?_⟩
    rw [Decimal.Dyadic.value, zpow_sub₀ two_ne_zero, zpow_natCast]
    push_cast
    field_simp

/-- Every finite double is a whole number of the smallest units. -/
theorem exists_units {x : Float} (hx : isFinite x = true) :
    ∃ z : ℤ, value x = z * 2 ^ (-1074 : ℤ) := by
  rcases finite_cases hx with ⟨s, -, hvalue⟩ | ⟨s, d, hd, -, hvalue⟩
  · exact ⟨0, by rw [hvalue, Int.cast_zero, zero_mul]⟩
  · obtain ⟨n, -, hn⟩ := exists_grid hd.toCanonical hd.low
    cases s
    · refine ⟨-n, ?_⟩
      rw [hvalue, signed, hn, Int.cast_neg, Int.cast_natCast, neg_mul]
    · refine ⟨n, ?_⟩
      rw [hvalue, signed, hn, Int.cast_natCast]

/-- A finite double that is not negative is a zero or a magnitude. -/
theorem magnitude_cases {x : Float} (hx : isFinite x = true) (hpos : 0 ≤ value x) :
    value x = 0 ∨ ∃ d : Decimal.Dyadic, Finite d ∧ value x = d.value := by
  rcases finite_cases hx with ⟨s, -, hvalue⟩ | ⟨s, d, hd, -, hvalue⟩
  · exact Or.inl hvalue
  · cases s
    · have hdpos := hd.value_pos
      rw [hvalue, signed] at hpos
      linarith
    · exact Or.inr ⟨d, hd, hvalue⟩

/-- The doubles below 1 leave room for a unit. -/
theorem value_le_of_lt_one {x : Float} (hx : isFinite x = true) (hlt : value x < 1) :
    value x ≤ 1 - 1 / 2 ^ 53 := by
  by_contra hnear
  rw [not_le] at hnear
  obtain hzero | ⟨d, hd, hvalue⟩ := magnitude_cases hx (by linarith)
  · linarith
  · rw [hvalue] at hlt hnear
    -- neither coarse units nor fine ones come so close
    rcases lt_trichotomy d.exponent (-53) with hfine | hexp | hcoarse
    · have hbelow := value_lt_grid hd.toCanonical hfine
      have hhalf : (2 : ℚ) ^ 52 * 2 ^ (-53 : ℤ) = 1 / 2 := by norm_num
      rw [hhalf] at hbelow
      linarith
    · have hpow : (2 : ℚ) ^ (-53 : ℤ) = 1 / 2 ^ 53 := by norm_num
      rw [Decimal.Dyadic.value, hexp, hpow] at hlt hnear
      have hhigh : (d.mantissa : ℚ) < 2 ^ 53 := by linarith
      have hlow : (2 ^ 53 : ℚ) < d.mantissa + 1 := by linarith
      have hlow : 2 ^ 53 < d.mantissa + 1 := by exact_mod_cast hlow
      have hhigh : d.mantissa < 2 ^ 53 := by exact_mod_cast hhigh
      omega
    · have hlong : (2 ^ 52 : ℚ) ≤ d.mantissa := by
        exact_mod_cast hd.normal.resolve_right (by omega)
      have hpow : (2 : ℚ) ^ (-52 : ℤ) ≤ 2 ^ d.exponent := zpow_le_zpow_right₀ one_le_two hcoarse
      have hone : (1 : ℚ) ≤ d.value := by
        calc (1 : ℚ) = 2 ^ 52 * 2 ^ (-52 : ℤ) := by norm_num
          _ ≤ d.value := mul_le_mul hlong hpow (by positivity) (by positivity)
      linarith

/-- What lies between finite doubles is finite. -/
theorem isFinite_of_between {x y r : Float} (hx : isFinite x = true) (hy : isFinite y = true)
    (hr : isNaN r = false) (hxr : value x ≤ value r) (hry : value r ≤ value y) :
    isFinite r = true := by
  rw [isFinite_iff_value (isNaN_of_isFinite hx), abs_lt] at hx
  rw [isFinite_iff_value (isNaN_of_isFinite hy), abs_lt] at hy
  rw [isFinite_iff_value hr, abs_lt]
  exact ⟨hx.1.trans_le hxr, hry.trans_lt hy.2⟩

/-! ## Rounding to a neighbour -/

/-- What is rounded up goes up by at most as much as any double lies below. -/
theorem Rounded.nearest {q v : ℚ} (h : Rounded q v) {c : Decimal.Dyadic} (hc : c.Canonical)
    (hcq : c.value ≤ q) : v - q ≤ q - c.value := by
  obtain ⟨r, t, hgrid, hnearest, rfl⟩ := h
  have hpow : (0 : ℚ) < 2 ^ t := by positivity
  have hscaled : q = q / 2 ^ t * 2 ^ t := (div_mul_cancel₀ q hpow.ne').symm
  -- on the grid the nearest integer is at least as near as the others
  have hon : ∀ n : ℕ, (n : ℚ) ≤ q / 2 ^ t → r * 2 ^ t - q ≤ q - n * 2 ^ t := by
    intro n hn
    have hr : (r : ℚ) + n ≤ 2 * (q / 2 ^ t) := by
      by_contra hfar
      have hlower := hnearest.lower
      have hnr : n < r := by
        have hlt : (n : ℚ) < r := by linarith
        exact_mod_cast hlt
      have hle : (n : ℚ) + 1 ≤ r := by exact_mod_cast hnr
      linarith
    have hboth := mul_le_mul_of_nonneg_right hr hpow.le
    rw [mul_assoc, ← hscaled] at hboth
    linarith
  by_cases hfine : t ≤ c.exponent
  · obtain ⟨n, -, hn⟩ := exists_grid hc hfine
    rw [hn] at hcq ⊢
    exact hon n ((le_div_iff₀ hpow).mpr hcq)
  · have hlow := hc.low
    have hbelow := value_lt_grid hc (show c.exponent < t by omega)
    have hlong := hgrid.long.resolve_right (by omega)
    have hfirst := hon (2 ^ 52) (by exact_mod_cast hlong)
    push_cast at hfirst
    linarith

namespace RoundsTo

variable {x c : Float} {q : ℚ}

theorem value_le (h : RoundsTo x q) (hc : isNaN c = false) (hq : q ≤ value c) :
    value x ≤ value c :=
  (le_iff_value h.1 hc).mp (h.le (roundsTo_value hc) hq)

theorem le_value (h : RoundsTo x q) (hc : isNaN c = false) (hq : value c ≤ q) :
    value c ≤ value x :=
  (le_iff_value hc h.1).mp ((roundsTo_value hc).le h hq)

theorem mono {y : Float} {p : ℚ} (h : RoundsTo x p) (h' : RoundsTo y q) (hpq : p ≤ q) :
    value x ≤ value y :=
  (le_iff_value h.1 h'.1).mp (h.le h' hpq)

theorem nonneg (h : RoundsTo x q) (hq : 0 ≤ q) : 0 ≤ value x := by
  have hle := h.le_value (c := 0) rfl
  rw [value_zero] at hle
  exact hle hq

/-- What is rounded between a finite double and its opposite is finite. -/
theorem finite (h : RoundsTo x q) (hc : isFinite c = true) (hlo : -value c ≤ q)
    (hhi : q ≤ value c) : isFinite x = true := by
  have hneg : isFinite (-c) = true := (isFinite_neg c).trans hc
  have hge := h.le_value (isNaN_of_isFinite hneg) (by rwa [value_neg])
  exact isFinite_of_between hneg hc h.1 hge (h.value_le (isNaN_of_isFinite hc) hhi)

/-- A double is rounded up to by at most as much as another one lies below. -/
theorem nearest (h : RoundsTo x q) {d : Decimal.Dyadic} (hd : d.Canonical) (hdq : d.value ≤ q) :
    value x - q ≤ q - d.value := by
  have hdpos := Near.pos hd d.near_value
  obtain ⟨-, s, v, hpos, hv, hvalue⟩ := h
  cases s
  · rw [signed] at hpos
    linarith
  · have hle := hv.nearest hd hdq
    have hmin := min_le_left v limit
    rw [hvalue]
    simp only [signed] at *
    linarith

end RoundsTo

/-- The double before one with coarse units is nearer than the doubles after it. -/
theorem exists_before {d : Decimal.Dyadic} (hd : Finite d) (he : -1074 < d.exponent) :
    ∃ c : Decimal.Dyadic, Finite c ∧ c.value < d.value ∧ d.value * (1 - 1 / 2 ^ 52) < c.value := by
  have hlong : 2 ^ 52 ≤ d.mantissa := hd.normal.resolve_right (by omega)
  have hlt := hd.lt
  have hhigh := hd.high
  have hpow : (0 : ℚ) < 2 ^ d.exponent := by positivity
  rcases Nat.lt_or_eq_of_le hlong with hmore | hpower
  · refine ⟨⟨d.mantissa - 1, d.exponent⟩, ⟨⟨?_, ?_, ?_, ?_⟩, hhigh⟩, ?_, ?_⟩
    · simp only; omega
    · simp only; omega
    · exact he.le
    · exact Or.inl (by simp only; omega)
    all_goals
      have hcast : ((d.mantissa - 1 : ℕ) : ℚ) = d.mantissa - 1 := by
        rw [Nat.cast_sub (by omega), Nat.cast_one]
      have hmore : (2 ^ 52 : ℚ) < d.mantissa := by exact_mod_cast hmore
      rw [Decimal.Dyadic.value, Decimal.Dyadic.value, hcast]
    · linarith
    · have hunit : (2 : ℚ) ^ d.exponent < d.mantissa * 2 ^ d.exponent * (1 / 2 ^ 52) := by
        rw [mul_one_div, lt_div_iff₀ (by positivity), mul_comm]
        exact mul_lt_mul_of_pos_right hmore hpow
      linarith
  · -- just below a power of two the units are half as large
    refine ⟨⟨2 ^ 53 - 1, d.exponent - 1⟩, ⟨⟨?_, ?_, ?_, ?_⟩, ?_⟩, ?_, ?_⟩
    · simp only; omega
    · simp only; omega
    · simp only; omega
    · exact Or.inl (by simp only; omega)
    · simp only; omega
    all_goals
      have hcast : ((2 ^ 53 - 1 : ℕ) : ℚ) = 2 ^ 53 - 1 := by norm_num
      have hmantissa : (d.mantissa : ℚ) = 2 ^ 52 := by exact_mod_cast hpower.symm
      rw [Decimal.Dyadic.value, Decimal.Dyadic.value, hcast, hmantissa, zpow_sub_one₀ two_ne_zero]
    · linarith
    · linarith

/-! ## Shares of a rounded number -/

section Share

variable {x : Float} {q : ℚ} {n : ℕ} (h : RoundsTo x q) (hx : isFinite x = true)
  (hq : q = n * 2 ^ (-1074 : ℤ))

include h hx hq

/-- Below a number that was rounded up there is a double that is almost as large. -/
theorem exists_below (hlt : q < value x) : ∃ c : Decimal.Dyadic, Finite c ∧ c.value < q ∧
    value x * (1 - 1 / 2 ^ 52) < c.value := by
  have hpos : 0 ≤ q := by rw [hq]; positivity
  -- a double below is below the number, or the number would have been rounded to it
  have hbelow : ∀ {c : Decimal.Dyadic}, Finite c → c.value < value x → c.value < q := by
    intro c hc hcx
    obtain ⟨y, hy, hyc⟩ := exists_of_finite hc
    by_contra hqc
    have hle := h.value_le (isNaN_of_isFinite hy) (hyc ▸ not_lt.mp hqc)
    linarith
  obtain hzero | ⟨d, hd, hvalue⟩ := magnitude_cases hx (by linarith)
  · linarith
  rcases eq_or_lt_of_le hd.low with hlow | hlow
  · -- in the smallest units all whole numbers of this length are doubles
    exfalso
    have hscaled : (n : ℚ) < d.mantissa := by
      rw [hvalue, hq, Decimal.Dyadic.value, ← hlow] at hlt
      exact lt_of_mul_lt_mul_right hlt (by positivity)
    have hshort : n < d.mantissa := by exact_mod_cast hscaled
    obtain ⟨y, hy, hyq⟩ := exists_value (Nat.lt_trans hshort hd.lt) (le_refl (-1074)) (by decide)
    have hyq : value y = q := hyq.trans hq.symm
    have hle := h.value_le (isNaN_of_isFinite hy) hyq.ge
    linarith
  · obtain ⟨c, hc, hcd, hnear⟩ := exists_before hd hlow
    rw [← hvalue] at hcd hnear
    exact ⟨c, hc, hbelow hc hcd, hnear⟩

/-- **A share of a rounded number**, if it is not all of it, is not above the number, although the
share is taken of what may have been rounded up and is rounded itself. -/
theorem RoundsTo.share_le {f y : Float} (hf : isFinite f = true) (hlt : value f < 1)
    (hy : RoundsTo y (value x * value f)) : value y ≤ q := by
  have hpos : 0 ≤ q := by rw [hq]; positivity
  have hxpos := h.nonneg hpos
  have hshare : value x * value f ≤ value x * (1 - 1 / 2 ^ 53) :=
    mul_le_mul_of_nonneg_left (value_le_of_lt_one hf hlt) hxpos
  rcases le_or_gt (value x) q with hle | hup
  · have hself := hy.value_le h.1 (by linarith)
    linarith
  · by_contra hqy
    obtain ⟨c, hc, hcq, hnear⟩ := exists_below h hx hq hup
    obtain ⟨b, hb, hbc⟩ := exists_of_finite hc
    rcases le_total (value x * value f) c.value with hle | hle
    · have hyc := hy.value_le (isNaN_of_isFinite hb) (hbc ▸ hle)
      linarith
    · -- the share is nearer to the double below than to the rounded number
      have hyx := hy.nearest hc.toCanonical hle
      have hyx : value y < value x := by linarith
      have hxy := h.value_le hy.1 (not_le.mp hqy).le
      linarith

end Share

/-! ## Counts -/

/-- Short counts are doubles. -/
theorem value_ofNat {n : ℕ} (hn : n < 2 ^ 53) : value (ofNat n) = n := by
  rcases Nat.eq_zero_or_pos n with rfl | hpos
  · rw [Nat.cast_zero]
    exact value_zero
  · obtain ⟨c, hc, hvalue⟩ := exists_value hn (e := 0) (by decide) (by decide)
    rw [zpow_zero, mul_one] at hvalue
    have hself := roundsTo_value (isNaN_of_isFinite hc)
    rw [hvalue] at hself
    rw [(roundsTo_ofNat n).value_eq hself, hvalue]

theorem value_one : value 1 = 1 := by
  have hone := value_ofNat (n := 1) (by decide)
  rwa [Nat.cast_one] at hone

theorem floor_spec (d : Decimal.Dyadic) : (d.floor : ℚ) ≤ d.value ∧ d.value < d.floor + 1 := by
  rw [Decimal.Dyadic.value_eq_div, Decimal.Dyadic.floor, ← Nat.floor_div_eq_div (K := ℚ)]
  exact ⟨Nat.floor_le (by positivity), Nat.lt_floor_add_one _⟩

theorem ceil_spec (d : Decimal.Dyadic) : d.value ≤ d.ceil ∧ (d.ceil : ℚ) < d.value + 1 := by
  have hden : 0 < d.den := Decimal.den_pos d
  have hpos : (0 : ℚ) < d.den := by exact_mod_cast hden
  have hle := Nat.div_mul_le_self (d.num + d.den - 1) d.den
  have hlt := Nat.lt_div_mul_add (a := d.num + d.den - 1) hden
  rw [Decimal.Dyadic.value_eq_div, Decimal.Dyadic.ceil]
  generalize (d.num + d.den - 1) / d.den = c at *
  constructor
  · rw [div_le_iff₀ hpos]
    exact_mod_cast (show d.num ≤ c * d.den by omega)
  · rw [div_add_one hpos.ne', lt_div_iff₀ hpos]
    exact_mod_cast (show c * d.den < d.num + d.den by omega)

section Whole

variable {x : Float} {n : ℕ} (hx : isFinite x = true) (hpos : 0 ≤ value x) (hn : n < 2 ^ 64)
  (hle : value x ≤ n)

include hx hpos

/-- Counts are read from a double that is not negative by its exact magnitude. -/
theorem toCount_eq (round : Decimal.Dyadic → ℕ)
    (hround : ∀ d : Decimal.Dyadic, d.value = 0 → round d = 0) :
    ∃ d : Decimal.Dyadic, d.value = value x ∧
      Decimal.toCount round x = min (round d) Decimal.maxCount := by
  have hvalue := value_eq_dyadic hx
  have hdef : x.isNaN = false := isNaN_of_isFinite hx
  have hfinite : x.isFinite = true := hx
  cases hneg : Decimal.isNegative x with
  | false =>
    rw [signOf, hneg, if_neg (by decide)] at hvalue
    refine ⟨Decimal.dyadic x, hvalue.symm, ?_⟩
    rw [Decimal.toCount, hdef, hneg, hfinite]
    rfl
  | true =>
    -- a negative zero
    rw [signOf, hneg, if_pos rfl] at hvalue
    have hdyadic : 0 ≤ (Decimal.dyadic x).value := by
      rw [Decimal.Dyadic.value]
      positivity
    have hzero : (Decimal.dyadic x).value = 0 := by
      rw [hvalue, signed] at hpos
      linarith
    refine ⟨Decimal.dyadic x, ?_, ?_⟩
    · rw [hvalue, hzero, signed_zero]
    · rw [Decimal.toCount, hneg, Bool.or_true, if_pos rfl, hround _ hzero, Nat.zero_min]

include hn hle

theorem floorNat_spec : (floorNat x : ℚ) ≤ value x ∧ value x < floorNat x + 1 := by
  obtain ⟨d, hd, hcount⟩ := toCount_eq hx hpos Decimal.Dyadic.floor fun d hzero => by
    have h := (floor_spec d).1
    rw [hzero] at h
    exact Nat.le_zero.mp (by exact_mod_cast h)
  have hspec := floor_spec d
  rw [hd] at hspec
  have hfloor : d.floor ≤ n := by exact_mod_cast hspec.1.trans hle
  have hmax : Decimal.maxCount = 2 ^ 64 - 1 := rfl
  have hfloorNat : floorNat x = d.floor := hcount.trans (Nat.min_eq_left (by omega))
  rwa [hfloorNat]

theorem ceilNat_spec : value x ≤ ceilNat x ∧ (ceilNat x : ℚ) < value x + 1 := by
  obtain ⟨d, hd, hcount⟩ := toCount_eq hx hpos Decimal.Dyadic.ceil fun d hzero => by
    have h := (ceil_spec d).2
    rw [hzero, zero_add] at h
    exact Nat.lt_one_iff.mp (by exact_mod_cast h)
  have hspec := ceil_spec d
  rw [hd] at hspec
  have hceil : (d.ceil : ℚ) < n + 1 := by linarith
  have hceil : d.ceil < n + 1 := by exact_mod_cast hceil
  have hmax : Decimal.maxCount = 2 ^ 64 - 1 := rfl
  have hceilNat : ceilNat x = d.ceil := hcount.trans (Nat.min_eq_left (by omega))
  rwa [hceilNat]

omit hn hle in
/-- The difference from the count below is a double: 0, or fewer of the units that the double is
counted in. -/
theorem exists_rest {k : ℕ} (hk : k < 2 ^ 64) (hlower : k ≤ value x) (hupper : value x < k + 1) :
    ∃ c, isFinite c = true ∧ value c = value x - k ∧ value (ofNat k) = k := by
  obtain hzero | ⟨d, hd, hxd⟩ := magnitude_cases hx hpos
  · -- a zero has the count 0 below it
    have hk₀ : k = 0 := Nat.le_zero.mp (by exact_mod_cast hzero ▸ hlower)
    exact ⟨0, rfl, by rw [hk₀, hzero, Nat.cast_zero, sub_zero, value_zero], value_ofNat (by omega)⟩
  rcases le_or_gt 0 d.exponent with hwhole | hfraction
  · -- without places behind the point the double is the count itself
    obtain ⟨w, -, hw⟩ := exists_grid hd.toCanonical hwhole
    rw [zpow_zero, mul_one] at hw
    rw [hxd, hw] at hlower hupper
    have hkw : k ≤ w := by exact_mod_cast hlower
    have hwk : w < k + 1 := by exact_mod_cast hupper
    have hxk : value x = k := by rw [hxd, hw, show w = k by omega]
    have hself := roundsTo_value (isNaN_of_isFinite hx)
    rw [hxk] at hself
    exact ⟨0, rfl, by rw [hxk, sub_self, value_zero], ((roundsTo_ofNat k).value_eq hself).trans hxk⟩
  · -- otherwise the count has a mantissa in the double's own units, and so has the rest
    obtain ⟨j, hj⟩ : ∃ j : ℕ, d.exponent = -j := ⟨d.exponent.natAbs, by omega⟩
    have hpow : (0 : ℚ) < 2 ^ j := by positivity
    have hunits : value x * 2 ^ j = d.mantissa := by
      rw [hxd, Decimal.Dyadic.value, hj, zpow_neg, zpow_natCast, inv_mul_cancel_right₀ hpow.ne']
    have hless : k * 2 ^ j ≤ d.mantissa := by
      have hless := mul_le_mul_of_nonneg_right hlower hpow.le
      rw [hunits] at hless
      exact_mod_cast hless
    have hlt := hd.lt
    obtain ⟨c, hc, hvalue⟩ := exists_value (n := d.mantissa - k * 2 ^ j) (by omega) hd.low hd.high
    refine ⟨c, hc, ?_, value_ofNat ?_⟩
    · rw [hvalue, Nat.cast_sub hless, ← hunits, hj, zpow_neg, zpow_natCast]
      push_cast
      field_simp
    · have hk₀ : k ≤ k * 2 ^ j := Nat.le_mul_of_pos_right k (Nat.two_pow_pos j)
      omega

/-- What is left above the count below needs no rounding. -/
theorem value_sub_floorNat : isFinite (x - ofNat (floorNat x)) = true ∧
    value (x - ofNat (floorNat x)) = value x - floorNat x := by
  obtain ⟨hlower, hupper⟩ := floorNat_spec hx hpos hn hle
  have hcount : floorNat x ≤ n := by exact_mod_cast hlower.trans hle
  have hk : floorNat x < 2 ^ 64 := by omega
  obtain ⟨c, hc, hvalue, hofNat⟩ := exists_rest hx hpos hk hlower hupper
  have hdiff := roundsTo_sub hx (isFinite_ofNat hk)
  rw [hofNat, ← hvalue] at hdiff
  have hself := hdiff.value_eq (roundsTo_value (isNaN_of_isFinite hc))
  exact ⟨hdiff.finite hc (by linarith) le_rfl, hself.trans hvalue⟩

end Whole

end FactorStudy.Double
