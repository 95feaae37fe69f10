import FactorStudy.Proofs.Double.Operations

/-!
# Rounding keeps the order

A result that lies above a double is not rounded below it, and one that lies below a double is not
rounded above it. So a result is finite if the exact one is at most the greatest double, and it keeps
its sign whatever happens (`Rounds.cases`, `Rounds.unpack_pack`).

The argument is on the grid that rounding works on. The exact result, in units of the last place, is
at least `2 ^ 52` unless the units are the smallest ones there are. Doubles with coarser units lie on
the grid, and rounding to the grid does not pass them; doubles with finer units lie below it all.
-/

namespace FactorStudy.Double

open Float.Model (Format UnpackedFloat)
open Float.Model.UnpackedFloat

/-! ## Rounding to an integer -/

/-- Rounding does not go below an integer. -/
theorem Tracks.le_roundedMantissa {em : ExtendedMantissa} {x : ℚ} (h : Tracks em x) {n : ℕ}
    (hn : (n : ℚ) ≤ x) : n ≤ em.roundedMantissa := by
  have hlt : n < em.mantissa + 1 := by exact_mod_cast lt_of_le_of_lt hn h.lt
  obtain ⟨m, r, s⟩ := em
  have hle : n ≤ m := Nat.lt_succ_iff.mp hlt
  cases r <;> cases s
  · exact hle
  · exact hle
  · exact Nat.le_trans hle (Nat.le_add_right m (m % 2))
  · exact Nat.le_trans hle (Nat.le_add_right m 1)

/-- Nor above one. -/
theorem Tracks.roundedMantissa_le {em : ExtendedMantissa} {x : ℚ} (h : Tracks em x) {n : ℕ}
    (hn : x ≤ n) : em.roundedMantissa ≤ n := by
  obtain ⟨m, r, s⟩ := em
  cases r <;> cases s
  · have hx : x = m := h
    show m ≤ n
    exact_mod_cast hx ▸ hn
  · have hx : (m : ℚ) < x := h.1
    show m ≤ n
    exact_mod_cast (hx.trans_le hn).le
  · have hx : x = m + 1 / 2 := h
    have hm : m < n := by
      have hm : (m : ℚ) < n := by linarith
      exact_mod_cast hm
    -- a tie is rounded up by 1 at most
    show m + m % 2 ≤ n
    omega
  · have hx : (m : ℚ) + 1 / 2 < x := h.1
    have hm : m < n := by
      have hm : (m : ℚ) < n := by linarith
      exact_mod_cast hm
    exact hm

/-- `r` is the integer nearest to `x`, and of two the even one. -/
structure NearestEven (x : ℚ) (r : ℕ) : Prop where
  lower : r - 1 / 2 ≤ x
  upper : x ≤ r + 1 / 2
  even : x = r - 1 / 2 ∨ x = r + 1 / 2 → r % 2 = 0

theorem Tracks.nearestEven {em : ExtendedMantissa} {x : ℚ} (h : Tracks em x) :
    NearestEven x em.roundedMantissa := by
  obtain ⟨m, r, s⟩ := em
  -- the round and the sticky bit say where between two numbers the tracked one lies
  cases r <;> cases s
  · have hx : x = m := h
    show NearestEven x m
    exact ⟨by linarith, by linarith, by rintro (h | h) <;> linarith⟩
  · have hx : m < x ∧ x < m + 1 / 2 := h
    show NearestEven x m
    exact ⟨by linarith, by linarith, by rintro (h | h) <;> linarith⟩
  · -- halfway between the two: the even one is taken
    have hx : x = m + 1 / 2 := h
    show NearestEven x (m + m % 2)
    rcases Nat.mod_two_eq_zero_or_one m with hm | hm
    · rw [hm, Nat.add_zero]
      exact ⟨by linarith, by linarith, fun _ => hm⟩
    · rw [hm]
      refine ⟨?_, ?_, fun _ => by omega⟩
      · push_cast
        linarith
      · push_cast
        linarith
  · have hx : m + 1 / 2 < x ∧ x < m + 1 := h
    show NearestEven x (m + 1)
    refine ⟨?_, ?_, ?_⟩
    · push_cast
      linarith
    · push_cast
      linarith
    · push_cast
      rintro (h | h) <;> linarith

/-- Larger numbers have larger nearest integers. -/
theorem NearestEven.mono {x y : ℚ} {r s : ℕ} (hr : NearestEven x r) (hs : NearestEven y s)
    (h : x ≤ y) : r ≤ s := by
  by_contra hlt
  have hle : (s : ℚ) + 1 ≤ r := by exact_mod_cast not_le.mp hlt
  have hlower := hr.lower
  have hupper := hs.upper
  -- both are half way between the same two integers
  have hsr : (s : ℚ) + 1 = r := by linarith
  have heven := hr.even (Or.inl (by linarith))
  have heven' := hs.even (Or.inr (by linarith))
  have hsucc : s + 1 = r := by exact_mod_cast hsr
  omega

/-! ## Doubles and the grid -/

section Grid

variable {d : Decimal.Dyadic} {t : ℤ}

/-- A double with units no finer than the grid's lies on the grid. -/
theorem exists_grid (hd : d.Canonical) (h : t ≤ d.exponent) :
    ∃ n : ℕ, 0 < n ∧ d.value = n * 2 ^ t := by
  obtain ⟨k, hk⟩ : ∃ k : ℕ, d.exponent = t + k := ⟨(d.exponent - t).toNat, by omega⟩
  refine ⟨d.mantissa * 2 ^ k, Nat.mul_pos hd.pos (Nat.pow_pos (by decide)), ?_⟩
  rw [Decimal.Dyadic.value, hk, zpow_add₀ two_ne_zero, zpow_natCast]
  push_cast
  ring

/-- One with finer units lies below all of the grid that is used. -/
theorem value_lt_grid (hd : d.Canonical) (h : d.exponent < t) : d.value < 2 ^ 52 * 2 ^ t := by
  have hmantissa : (d.mantissa : ℚ) < 2 ^ 53 := by exact_mod_cast hd.lt
  have hpow : (2 : ℚ) ^ (d.exponent + 1) ≤ 2 ^ t := zpow_le_zpow_right₀ one_le_two h
  rw [zpow_add_one₀ two_ne_zero] at hpow
  calc d.value < 2 ^ 53 * 2 ^ d.exponent := mul_lt_mul_of_pos_right hmantissa (by positivity)
    _ = 2 ^ 52 * (2 ^ d.exponent * 2) := by ring
    _ ≤ 2 ^ 52 * 2 ^ t := mul_le_mul_of_nonneg_left hpow (by positivity)

end Grid

/-- `r` units of `2 ^ t` are `q`, rounded to the grid that its size calls for. -/
structure Grid (q : ℚ) (r : ℕ) (t : ℤ) : Prop where
  low : -1074 ≤ t
  long : 2 ^ 52 ≤ q / 2 ^ t ∨ t = -1074
  short : q / 2 ^ t < 2 ^ 53
  le_of_le : ∀ n : ℕ, (n : ℚ) ≤ q / 2 ^ t → n ≤ r
  ge_of_ge : ∀ n : ℕ, q / 2 ^ t ≤ n → r ≤ n

namespace Grid

variable {q : ℚ} {r : ℕ} {t : ℤ} {c : Decimal.Dyadic}

theorem le (h : Grid q r t) : r ≤ 2 ^ 53 := by
  refine h.ge_of_ge _ ?_
  push_cast
  exact h.short.le

theorem normal (h : Grid q r t) : 2 ^ 52 ≤ r ∨ t = -1074 := by
  refine h.long.imp_left fun hlong => h.le_of_le _ ?_
  push_cast
  exact hlong

theorem value_le (h : Grid q r t) (hc : c.Canonical) (hcq : c.value ≤ q) : c.value ≤ r * 2 ^ t := by
  have hpos : (0 : ℚ) < 2 ^ t := by positivity
  have hscaled : ∀ n : ℕ, n ≤ r → (n : ℚ) * 2 ^ t ≤ r * 2 ^ t := by
    intro n hn
    exact mul_le_mul_of_nonneg_right (by exact_mod_cast hn) hpos.le
  by_cases hgrid : t ≤ c.exponent
  · obtain ⟨n, -, hn⟩ := exists_grid hc hgrid
    rw [hn] at hcq ⊢
    exact hscaled n (h.le_of_le n ((le_div_iff₀ hpos).mpr hcq))
  · have hlow := hc.low
    have hbelow := value_lt_grid hc (show c.exponent < t by omega)
    have hlong := hscaled (2 ^ 52) (h.normal.resolve_right (by omega))
    push_cast at hlong
    exact hbelow.le.trans hlong

theorem le_value (h : Grid q r t) (hc : c.Canonical) (hcq : q ≤ c.value) : r * 2 ^ t ≤ c.value := by
  have hpos : (0 : ℚ) < 2 ^ t := by positivity
  by_cases hgrid : t ≤ c.exponent
  · obtain ⟨n, -, hn⟩ := exists_grid hc hgrid
    rw [hn] at hcq ⊢
    have hle := h.ge_of_ge n ((div_le_iff₀ hpos).mpr hcq)
    exact mul_le_mul_of_nonneg_right (by exact_mod_cast hle) hpos.le
  · -- a double with finer units lies below `q`
    have hlow := hc.low
    have hbelow := value_lt_grid hc (show c.exponent < t by omega)
    have hlong := h.long.resolve_right (by omega)
    rw [le_div_iff₀ hpos] at hlong
    linarith

end Grid

/-- A mantissa that was rounded away stays away. -/
theorem shiftToTargetExponent_zero :
    shiftToTargetExponent Format.binary64 0 (-1074) .exact = (⟨0, false, false⟩, -1074) := by
  have hk : max (((0 : ℕ).log2 : ℤ) + -1074 - 52) (-1074) = -1074 + (0 : ℕ) := by
    rw [Nat.log2_zero]
    omega
  rw [shiftToTargetExponent_eq 0 .exact hk]
  rfl

/-- The mantissa is rounded on its grid, and the second shift brings what comes out into form. -/
theorem Rounds.exists_grid {u : UnpackedFloat} {s : Sign} {q : ℚ} (h : Rounds u s q) :
    ∃ r t, Grid q r t ∧ NearestEven (q / 2 ^ t) r ∧
      ∀ m e, shiftToTargetExponent Format.binary64 r t .exact = (⟨m, false, false⟩, e) →
        u = if h : m = 0 then .zero s else .finite s m e (Nat.pos_of_ne_zero h) := by
  obtain ⟨m, e, acc, rfl, htracks, hfine⟩ := h
  obtain ⟨k, hk, hlt, hle⟩ := exists_shift htracks hfine
  have htracks := htracks.shiftRight k
  have hscale : q / 2 ^ e / 2 ^ k = q / 2 ^ (e + k) := by
    rw [div_div, zpow_add₀ two_ne_zero, zpow_natCast]
  rw [hscale] at htracks hlt hle
  -- the first shift puts the number on its grid, where the mantissa is rounded
  refine ⟨(ExtendedMantissa.ofMantissaAndAccuracy m acc >>> k).roundedMantissa, e + k,
    ⟨by omega, hle, hlt, ?_, ?_⟩, htracks.nearestEven, ?_⟩
  · intro n hn
    exact htracks.le_roundedMantissa hn
  · intro n hn
    exact htracks.roundedMantissa_le hn
  · intro m' e' hshift
    simp only [roundWithAccuracy, shiftToTargetExponent_eq k acc hk, hshift]

/-- `v` is `q`, rounded to the values of doubles as if their exponents had no upper end. -/
def Rounded (q v : ℚ) : Prop :=
  ∃ (r : ℕ) (t : ℤ), Grid q r t ∧ NearestEven (q / 2 ^ t) r ∧ v = r * 2 ^ t

/-- What is rounded has the rounded value. -/
theorem Rounds.exists_rounded {u : UnpackedFloat} {s : Sign} {q : ℚ} (h : Rounds u s q) :
    ∃ v, Rounded q v ∧ ((v = 0 ∧ u = .zero s) ∨ ∃ (d : Decimal.Dyadic) (hd : d.Canonical),
      u = .finite s d.mantissa d.exponent hd.pos ∧ d.value = v) := by
  obtain ⟨r, t, hgrid, hnearest, hu⟩ := h.exists_grid
  refine ⟨r * 2 ^ t, ⟨r, t, hgrid, hnearest, rfl⟩, ?_⟩
  rcases Nat.eq_zero_or_pos r with rfl | hpos
  · left
    have ht : t = -1074 := hgrid.normal.resolve_left (by decide)
    subst ht
    exact ⟨by rw [Nat.cast_zero, zero_mul], hu 0 (-1074) shiftToTargetExponent_zero⟩
  · right
    rcases Nat.lt_or_eq_of_le hgrid.le with hshort | rfl
    · have hd : (⟨r, t⟩ : Decimal.Dyadic).Canonical := ⟨hpos, hshort, hgrid.low, hgrid.normal⟩
      have hself := shiftToTargetExponent_self hd
      refine ⟨⟨r, t⟩, hd, ?_, rfl⟩
      rw [hu r t hself, dif_neg (Nat.ne_of_gt hpos)]
    · -- rounded up to a power of two, which is a double with coarser units
      have hlow := hgrid.low
      have hd : (⟨2 ^ 52, t + 1⟩ : Decimal.Dyadic).Canonical :=
        ⟨Nat.pow_pos (by decide), Nat.pow_lt_pow_right (by decide) (by decide), by simp only; omega,
          Or.inl (le_refl _)⟩
      refine ⟨⟨2 ^ 52, t + 1⟩, hd, ?_, ?_⟩
      · rw [hu (2 ^ 52) (t + 1) (shiftToTargetExponent_carry hlow),
          dif_neg (Nat.ne_of_gt hd.pos)]
      · rw [Decimal.Dyadic.value, zpow_add_one₀ two_ne_zero]
        push_cast
        ring

namespace Rounded

variable {q v : ℚ} {c : Decimal.Dyadic}

theorem nonneg (h : Rounded q v) : 0 ≤ v := by
  obtain ⟨r, t, -, -, rfl⟩ := h
  positivity

theorem le (h : Rounded q v) (hc : c.Canonical) (hcq : c.value ≤ q) : c.value ≤ v := by
  obtain ⟨r, t, hgrid, -, rfl⟩ := h
  exact hgrid.value_le hc hcq

theorem ge (h : Rounded q v) (hc : c.Canonical) (hcq : q ≤ c.value) : v ≤ c.value := by
  obtain ⟨r, t, hgrid, -, rfl⟩ := h
  exact hgrid.le_value hc hcq

/-- **Rounding is monotone.** -/
theorem mono {p w : ℚ} (h : Rounded p v) (h' : Rounded q w) (hpq : p ≤ q) : v ≤ w := by
  obtain ⟨r, t, hgrid, hnearest, rfl⟩ := h
  obtain ⟨r', t', hgrid', hnearest', rfl⟩ := h'
  have hlow := hgrid.low
  have hlow' := hgrid'.low
  -- finer units stand for smaller numbers
  have hfiner : ∀ {i j : ℤ}, i < j → (2 : ℚ) ^ 53 * 2 ^ i ≤ 2 ^ 52 * 2 ^ j := by
    intro i j hij
    have hpow : (2 : ℚ) ^ (i + 1) ≤ 2 ^ j := zpow_le_zpow_right₀ one_le_two hij
    rw [zpow_add_one₀ two_ne_zero] at hpow
    linarith
  rcases lt_trichotomy t t' with hlt | rfl | hlt
  · have hr : (r : ℚ) ≤ 2 ^ 53 := by exact_mod_cast hgrid.le
    have hr' : (2 : ℚ) ^ 52 ≤ r' := by exact_mod_cast hgrid'.normal.resolve_right (by omega)
    calc (r : ℚ) * 2 ^ t ≤ 2 ^ 53 * 2 ^ t := mul_le_mul_of_nonneg_right hr (by positivity)
      _ ≤ 2 ^ 52 * 2 ^ t' := hfiner hlt
      _ ≤ r' * 2 ^ t' := mul_le_mul_of_nonneg_right hr' (by positivity)
  · have hscaled : p / 2 ^ t ≤ q / 2 ^ t := div_le_div_of_nonneg_right hpq (by positivity)
    have hle : (r : ℚ) ≤ r' := by exact_mod_cast hnearest.mono hnearest' hscaled
    exact mul_le_mul_of_nonneg_right hle (by positivity)
  · exfalso
    have hlong := hgrid.long.resolve_right (by omega)
    have hshort := hgrid'.short
    rw [le_div_iff₀ (by positivity)] at hlong
    rw [div_lt_iff₀ (by positivity)] at hshort
    linarith [hfiner hlt]

/-- A number of units that is no longer than a mantissa is not rounded. -/
theorem of_short {r : ℕ} {t : ℤ} (hlow : -1074 ≤ t) (hshort : r < 2 ^ 53)
    (hnormal : 2 ^ 52 ≤ r ∨ t = -1074) : Rounded (r * 2 ^ t) (r * 2 ^ t) := by
  have hscaled : (r * 2 ^ t : ℚ) / 2 ^ t = r := mul_div_cancel_right₀ _ (by positivity)
  refine ⟨r, t, ⟨hlow, ?_, ?_, ?_, ?_⟩, ⟨?_, ?_, ?_⟩, rfl⟩
  all_goals rw [hscaled]
  · exact hnormal.imp_left fun h => by exact_mod_cast h
  · exact_mod_cast hshort
  · exact fun n hn => Nat.cast_le.mp hn
  · exact fun n hn => Nat.cast_le.mp hn
  · linarith
  · linarith
  · rintro (h | h) <;> linarith

theorem zero : Rounded 0 0 := by
  have h := of_short (r := 0) (t := -1074) le_rfl (by decide) (Or.inr rfl)
  rwa [Nat.cast_zero, zero_mul] at h

theorem of_canonical (hc : c.Canonical) : Rounded c.value c.value :=
  of_short hc.low hc.lt hc.normal

end Rounded

/-- What is rounded is a zero, if it is smaller than every double, or else a double that keeps the
order. -/
theorem Rounds.cases {u : UnpackedFloat} {s : Sign} {q : ℚ} (h : Rounds u s q) :
    (u = .zero s ∧ ∀ c : Decimal.Dyadic, c.Canonical → q < c.value) ∨
      ∃ (d : Decimal.Dyadic) (hd : d.Canonical), u = .finite s d.mantissa d.exponent hd.pos ∧
        (∀ c : Decimal.Dyadic, c.Canonical → c.value ≤ q → c.value ≤ d.value) ∧
        ∀ c : Decimal.Dyadic, c.Canonical → q ≤ c.value → d.value ≤ c.value := by
  obtain ⟨v, hv, ⟨rfl, hzero⟩ | ⟨d, hd, hfinite, rfl⟩⟩ := h.exists_rounded
  · refine Or.inl ⟨hzero, fun c hc => ?_⟩
    by_contra hcq
    exact absurd (Near.pos hc c.near_value) (not_lt.mpr (hv.le hc (not_lt.mp hcq)))
  · exact Or.inr ⟨d, hd, hfinite, fun c hc => hv.le hc, fun c hc => hv.ge hc⟩

/-! ## What is written to bits -/

theorem unpack_pack_nan :
    unpack Format.binary64 (pack Format.binary64 .notANumber) = .notANumber := rfl

theorem unpack_pack_zero (s : Sign) :
    unpack Format.binary64 (pack Format.binary64 (.zero s)) = .zero s := by
  cases s <;> rfl

theorem unpack_pack_infinity (s : Sign) :
    unpack Format.binary64 (pack Format.binary64 (.infinity s)) = .infinity s := by
  cases s <;> rfl

/-- What is out of range is written as an infinity. -/
theorem unpack_pack_overflow {d : Decimal.Dyadic} (hd : d.Canonical) (h : 971 < d.exponent)
    (s : Sign) : unpack Format.binary64
      (pack Format.binary64 (.finite s d.mantissa d.exponent hd.pos)) = .infinity s := by
  have hbias : d.exponent + Format.binary64.exponentBias +
      Format.binary64.mantissaBitsWithoutImplicit = d.exponent + 1075 := by
    show d.exponent + 1023 + 52 = d.exponent + 1075
    omega
  have hover : 2 ^ Format.binary64.exponentBits ≤ (d.exponent + 1075).toNat + 1 := by
    show 2048 ≤ (d.exponent + 1075).toNat + 1
    omega
  simp only [pack, hbias, if_pos hover]
  exact unpack_pack_infinity s

/-- A result keeps its sign, and is never undefined. -/
theorem Rounds.unpack_pack {u : UnpackedFloat} {s : Sign} {q : ℚ} (h : Rounds u s q) :
    unpack Format.binary64 (pack Format.binary64 u) = .zero s ∨
      (∃ (d : Decimal.Dyadic) (hd : Finite d), unpack Format.binary64 (pack Format.binary64 u) =
        .finite s d.mantissa d.exponent hd.pos) ∨
      unpack Format.binary64 (pack Format.binary64 u) = .infinity s := by
  rcases h.cases with ⟨rfl, -⟩ | ⟨d, hd, rfl, -, -⟩
  · exact Or.inl (unpack_pack_zero s)
  · right
    by_cases hhigh : d.exponent ≤ 971
    · exact Or.inl ⟨d, ⟨hd, hhigh⟩, Double.unpack_pack ⟨hd, hhigh⟩ s⟩
    · exact Or.inr (unpack_pack_overflow hd (by omega) s)

/-- A magnitude that is at most a finite one is finite. -/
theorem Finite.of_value_le {c d : Decimal.Dyadic} (hc : Finite c) (hd : d.Canonical)
    (h : d.value ≤ c.value) : Finite d := by
  refine ⟨hd, ?_⟩
  by_contra hhigh
  have hc' := hc.high
  have hbelow := value_lt_grid hc.toCanonical (show c.exponent < d.exponent by omega)
  have hlong : 2 ^ 52 ≤ d.mantissa := hd.normal.resolve_right (by omega)
  have hlong : (2 ^ 52 : ℚ) ≤ d.mantissa := by exact_mod_cast hlong
  have hvalue : (2 ^ 52 : ℚ) * 2 ^ d.exponent ≤ d.value :=
    mul_le_mul_of_nonneg_right hlong (by positivity)
  linarith

/-- A result that is at most a double is a double or a zero. -/
theorem Rounds.unpack_pack_of_le {u : UnpackedFloat} {s : Sign} {q : ℚ} (h : Rounds u s q)
    {c : Decimal.Dyadic} (hc : Finite c) (hq : q ≤ c.value) :
    (unpack Format.binary64 (pack Format.binary64 u) = .zero s ∧
        ∀ b : Decimal.Dyadic, b.Canonical → q < b.value) ∨
      ∃ (d : Decimal.Dyadic) (hd : Finite d), unpack Format.binary64 (pack Format.binary64 u) =
          .finite s d.mantissa d.exponent hd.pos ∧
        ∀ b : Decimal.Dyadic, b.Canonical → b.value ≤ q → b.value ≤ d.value := by
  rcases h.cases with ⟨rfl, hsmall⟩ | ⟨d, hd, rfl, hle, hge⟩
  · exact Or.inl ⟨unpack_pack_zero s, hsmall⟩
  · have hfinite := hc.of_value_le hd (hge c hc.toCanonical hq)
    exact Or.inr ⟨d, hfinite, Double.unpack_pack hfinite s, hle⟩

end FactorStudy.Double
