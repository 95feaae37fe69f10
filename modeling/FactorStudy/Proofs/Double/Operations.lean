import FactorStudy.Proofs.Double.Magnitude

/-!
# Operations round to the nearest double

Every operation below is brought to the form that rounding asks for: an exact result and a mantissa
that tracks it to enough places (`Rounds`). What follows is then one fact, that the result is the
double the exact result is near to.
-/

namespace FactorStudy.Double

open Float.Model (Format UnpackedFloat totalExponent)
open Float.Model.UnpackedFloat

/-! ## Products and quotients -/

theorem tracks_exact (m : ℕ) : Tracks (ExtendedMantissa.ofMantissaAndAccuracy m .exact) m := rfl

/-- A quotient with remainder tracks the fraction. -/
theorem tracks_div (a : ℕ) {b : ℕ} (hb : 0 < b) :
    Tracks (ExtendedMantissa.ofMantissaAndAccuracy (a / b) (accuracyOfFraction (a % b) b))
      ((a : ℚ) / b) := by
  have hpos : (0 : ℚ) < b := by exact_mod_cast hb
  have hsplit : (a : ℚ) / b = (a / b : ℕ) + (a % b : ℕ) / b := by
    have hdiv : (a : ℚ) = b * (a / b : ℕ) + (a % b : ℕ) := by exact_mod_cast (Nat.div_add_mod a b).symm
    field_simp
    linarith
  have hlt : ((a % b : ℕ) : ℚ) < b := by exact_mod_cast Nat.mod_lt a hb
  rw [hsplit]
  generalize a / b = n at *
  generalize a % b = r at *
  unfold accuracyOfFraction
  split
  · -- the division is exact
    rename_i hzero
    subst hzero
    show (n : ℚ) + (0 : ℕ) / b = n
    simp
  · rename_i hzero
    have hr : (0 : ℚ) < r := by exact_mod_cast Nat.pos_of_ne_zero hzero
    have hfrac : 0 < (r : ℚ) / b := div_pos hr hpos
    rcases Nat.lt_trichotomy (2 * r) b with h | h | h
    · rw [Nat.compare_eq_lt.mpr h]
      have hhalf : (r : ℚ) / b < 1 / 2 := by
        rw [div_lt_div_iff₀ hpos two_pos]
        have h : (2 * r : ℚ) < b := by exact_mod_cast h
        linarith
      show (n : ℚ) < n + r / b ∧ (n : ℚ) + r / b < n + 1 / 2
      exact ⟨by linarith, by linarith⟩
    · rw [Nat.compare_eq_eq.mpr h]
      have hhalf : (r : ℚ) / b = 1 / 2 := by
        rw [div_eq_div_iff hpos.ne' two_ne_zero]
        have h : (2 * r : ℚ) = b := by exact_mod_cast h
        linarith
      show (n : ℚ) + r / b = n + 1 / 2
      linarith
    · rw [Nat.compare_eq_gt.mpr h]
      have hhalf : 1 / 2 < (r : ℚ) / b := by
        rw [div_lt_div_iff₀ two_pos hpos]
        have h : (b : ℚ) < 2 * r := by exact_mod_cast h
        linarith
      have hone : (r : ℚ) / b < 1 := (div_lt_one hpos).mpr hlt
      show (n : ℚ) + 1 / 2 < n + r / b ∧ (n : ℚ) + r / b < n + 1
      exact ⟨by linarith, by linarith⟩

variable {d : Decimal.Dyadic} {m₁ m₂ : ℕ} {e₁ e₂ : ℤ}

/-- `u` is `q` with a sign, rounded from a mantissa that tracks it to enough places. -/
def Rounds (u : UnpackedFloat) (s : Sign) (q : ℚ) : Prop :=
  ∃ m e acc, u = roundWithAccuracy Format.binary64 s m e acc ∧
    Tracks (ExtendedMantissa.ofMantissaAndAccuracy m acc) (q / 2 ^ e) ∧ (2 ^ 52 ≤ m ∨ e ≤ -1074)

/-- What is near a double is rounded to it. -/
theorem Rounds.eq_of_near {u : UnpackedFloat} {s : Sign} {q : ℚ} (h : Rounds u s q)
    (hd : d.Canonical) (hnear : d.Near q) : u = .finite s d.mantissa d.exponent hd.pos := by
  obtain ⟨m, e, acc, rfl, htracks, hfine⟩ := h
  exact roundWithAccuracy_of_near hd hnear htracks hfine s

/-- A product of mantissas that is long enough tracks the product. -/
theorem rounds_mul (hfine : 2 ^ 52 ≤ m₁ * m₂ ∨ e₁ + e₂ ≤ -1074) (s₁ s₂ : Sign) (h₁ : 0 < m₁)
    (h₂ : 0 < m₂) :
    Rounds (mul Format.binary64 (.finite s₁ m₁ e₁ h₁) (.finite s₂ m₂ e₂ h₂)) (s₁ * s₂)
      (m₁ * 2 ^ e₁ * (m₂ * 2 ^ e₂)) := by
  refine ⟨m₁ * m₂, e₁ + e₂, .exact, rfl, ?_, hfine⟩
  have hscaled : (m₁ * 2 ^ e₁ * (m₂ * 2 ^ e₂) : ℚ) / 2 ^ (e₁ + e₂) = (m₁ * m₂ : ℕ) := by
    rw [zpow_add₀ two_ne_zero]
    push_cast
    field_simp
  rw [hscaled]
  exact tracks_exact _

/-- Such a product is rounded to the nearest double. -/
theorem mul_of_near (hd : d.Canonical) (hnear : d.Near (m₁ * 2 ^ e₁ * (m₂ * 2 ^ e₂)))
    (hfine : 2 ^ 52 ≤ m₁ * m₂ ∨ e₁ + e₂ ≤ -1074) (s₁ s₂ : Sign) (h₁ : 0 < m₁) (h₂ : 0 < m₂) :
    mul Format.binary64 (.finite s₁ m₁ e₁ h₁) (.finite s₂ m₂ e₂ h₂) =
      .finite (s₁ * s₂) d.mantissa d.exponent hd.pos :=
  (rounds_mul hfine s₁ s₂ h₁ h₂).eq_of_near hd hnear

/-- The dividend is shifted far enough for a quotient of full length. -/
theorem exists_divCore (m₁ m₂ : ℕ) (e₁ e₂ : ℤ) (h₁ : 0 < m₁) (h₂ : 0 < m₂) :
    ∃ k : ℕ, divCore Format.binary64 m₁ e₁ m₂ e₂ =
        (m₁ * 2 ^ k / m₂, e₁ - e₂ - k, accuracyOfFraction (m₁ * 2 ^ k % m₂) m₂) ∧
      (2 ^ 52 ≤ m₁ * 2 ^ k / m₂ ∨ e₁ - e₂ - k ≤ -1074) := by
  obtain ⟨t, ht, hle, hlow⟩ : ∃ t : ℤ, min (e₁ - e₂) (Format.binary64.targetExponent
      (totalExponent m₁ e₁ - totalExponent m₂ e₂)) = t ∧ t ≤ e₁ - e₂ ∧
      (t ≤ (m₁.log2 : ℤ) + e₁ - m₂.log2 - e₂ - 53 ∨ t ≤ -1074) := by
    refine ⟨_, rfl, min_le_left _ _, ?_⟩
    show min (e₁ - e₂) (max (((m₁.log2 : ℤ) + 1 + e₁) - (m₂.log2 + 1 + e₂) - 53) (-1074)) ≤ _ ∨
      min (e₁ - e₂) (max (((m₁.log2 : ℤ) + 1 + e₁) - (m₂.log2 + 1 + e₂) - 53) (-1074)) ≤ _
    omega
  obtain ⟨k, hk⟩ : ∃ k : ℕ, e₁ - e₂ - t = k := ⟨(e₁ - e₂ - t).toNat, by omega⟩
  refine ⟨k, ?_, ?_⟩
  · have htk : t = e₁ - e₂ - k := by omega
    simp only [divCore, ht, hk, Int.toNat_natCast, Nat.shiftLeft_eq]
    rw [htk]
  · rcases hlow with hlow | hlow
    · left
      -- `2 ^ 52 * m₂ ≤ 2 ^ (53 + log₂ m₂) ≤ 2 ^ (log₂ m₁ + k) ≤ m₁ * 2 ^ k`
      have hexp : m₂.log2 + 1 + 52 ≤ m₁.log2 + k := by omega
      have hm₂ : m₂ < 2 ^ (m₂.log2 + 1) := Nat.lt_log2_self
      have hm₁ : 2 ^ m₁.log2 ≤ m₁ := Nat.log2_self_le (Nat.ne_of_gt h₁)
      rw [Nat.le_div_iff_mul_le h₂]
      calc 2 ^ 52 * m₂ ≤ 2 ^ 52 * 2 ^ (m₂.log2 + 1) := Nat.mul_le_mul_left _ hm₂.le
        _ = 2 ^ (m₂.log2 + 1 + 52) := by rw [Nat.mul_comm, ← Nat.pow_add]
        _ ≤ 2 ^ (m₁.log2 + k) := Nat.pow_le_pow_right (by decide) hexp
        _ = 2 ^ m₁.log2 * 2 ^ k := Nat.pow_add _ _ _
        _ ≤ m₁ * 2 ^ k := Nat.mul_le_mul_right _ hm₁
    · -- the quotient is short, but already at the lowest exponent
      right
      omega

/-- A quotient tracks the exact one. -/
theorem rounds_div (s₁ s₂ : Sign) (h₁ : 0 < m₁) (h₂ : 0 < m₂) :
    Rounds (div Format.binary64 (.finite s₁ m₁ e₁ h₁) (.finite s₂ m₂ e₂ h₂)) (s₁ / s₂)
      (m₁ * 2 ^ e₁ / (m₂ * 2 ^ e₂)) := by
  obtain ⟨k, hcore, hfine⟩ := exists_divCore m₁ m₂ e₁ e₂ h₁ h₂
  have hpos : (m₂ : ℚ) ≠ 0 := by exact_mod_cast Nat.ne_of_gt h₂
  have hscaled : (m₁ * 2 ^ e₁ / (m₂ * 2 ^ e₂) : ℚ) / 2 ^ (e₁ - e₂ - k) =
      (m₁ * 2 ^ k : ℕ) / m₂ := by
    rw [zpow_sub₀ two_ne_zero, zpow_sub₀ two_ne_zero, zpow_natCast]
    push_cast
    field_simp
  refine ⟨_, _, accuracyOfFraction (m₁ * 2 ^ k % m₂) m₂, ?_, ?_, hfine⟩
  · simp only [div, hcore]
  · rw [hscaled]
    exact tracks_div _ h₂

/-! ## Counts -/

/-- A mantissa with any exponent is first made long enough. -/
theorem rounds_round {m : ℕ} {e : ℤ} (hm : 0 < m) (s : Sign) :
    Rounds (UnpackedFloat.round Format.binary64 s m e) s (m * 2 ^ e) := by
  obtain ⟨k, hk, hfine⟩ : ∃ k : ℕ,
      (e - Format.binary64.targetExponent (totalExponent m e)).toNat = k ∧
        (2 ^ 52 ≤ m * 2 ^ k ∨ e - k ≤ -1074) := by
    refine ⟨_, rfl, ?_⟩
    rw [targetExponent_eq]
    generalize hk : (e - max ((m.log2 : ℤ) + e - 52) (-1074)).toNat = k
    by_cases hlow : e - k ≤ -1074
    · exact Or.inr hlow
    · left
      have hexp : 52 ≤ m.log2 + k := by omega
      calc 2 ^ 52 ≤ 2 ^ (m.log2 + k) := Nat.pow_le_pow_right (by decide) hexp
        _ = 2 ^ m.log2 * 2 ^ k := Nat.pow_add _ _ _
        _ ≤ m * 2 ^ k := Nat.mul_le_mul_right _ (Nat.log2_self_le (Nat.ne_of_gt hm))
  have hscaled : (m * 2 ^ e : ℚ) / 2 ^ (e - k) = (m * 2 ^ k : ℕ) := by
    rw [zpow_sub₀ two_ne_zero, zpow_natCast]
    push_cast
    field_simp
  -- shifting to the left loses nothing, so the exact number is what is rounded
  refine ⟨m * 2 ^ k, e - k, .exact, ?_, ?_, hfine⟩
  · simp only [UnpackedFloat.round, decreaseExponent, hk, Nat.shiftLeft_eq]
  · rw [hscaled]
    exact tracks_exact _

/-- It is rounded to the nearest double. -/
theorem round_of_near {m : ℕ} {e : ℤ} (hm : 0 < m) (hd : d.Canonical) (hnear : d.Near (m * 2 ^ e))
    (s : Sign) :
    UnpackedFloat.round Format.binary64 s m e = .finite s d.mantissa d.exponent hd.pos :=
  (rounds_round hm s).eq_of_near hd hnear

/-- Units of a power of two that are a double. -/
theorem exists_dyadic {n : ℕ} (hpos : 0 < n) (hlt : n < 2 ^ 53) {e : ℤ} (hlow : -1022 ≤ e)
    (hhigh : n.log2 + e ≤ 1023) :
    ∃ d : Decimal.Dyadic, Finite d ∧ 2 ^ 52 ≤ d.mantissa ∧ d.value = n * 2 ^ e := by
  have hlog : n.log2 < 53 := (Nat.log2_lt (Nat.ne_of_gt hpos)).mpr hlt
  -- the mantissa is shifted until its leading bit is the 53rd
  obtain ⟨k, hk⟩ : ∃ k : ℕ, n.log2 + k = 52 := ⟨52 - n.log2, by omega⟩
  have hlong : 2 ^ 52 ≤ n * 2 ^ k := by
    rw [← hk, Nat.pow_add]
    exact Nat.mul_le_mul_right _ (Nat.log2_self_le (Nat.ne_of_gt hpos))
  have hshort : n * 2 ^ k < 2 ^ 53 := by
    calc n * 2 ^ k < 2 ^ (n.log2 + 1) * 2 ^ k :=
          Nat.mul_lt_mul_of_pos_right Nat.lt_log2_self (Nat.pow_pos (by decide))
      _ = 2 ^ 53 := by rw [← Nat.pow_add]; congr 1; omega
  refine ⟨⟨n * 2 ^ k, e - k⟩, ?_, hlong, ?_⟩
  · exact {
      pos := Nat.mul_pos hpos (Nat.pow_pos (by decide))
      lt := hshort
      low := by simp only; omega
      normal := Or.inl hlong
      high := by simp only; omega }
  · rw [Decimal.Dyadic.value, zpow_sub₀ two_ne_zero, zpow_natCast]
    push_cast
    field_simp

/-- The magnitude of a count that needs no rounding. -/
theorem exists_dyadic_of_lt {n : ℕ} (hpos : 0 < n) (hlt : n < 2 ^ 53) :
    ∃ d : Decimal.Dyadic, Finite d ∧ 2 ^ 52 ≤ d.mantissa ∧ d.value = n := by
  have hlog : n.log2 < 53 := (Nat.log2_lt (Nat.ne_of_gt hpos)).mpr hlt
  obtain ⟨d, hd, hlong, hvalue⟩ := exists_dyadic hpos hlt (e := 0) (by decide) (by omega)
  rw [zpow_zero, mul_one] at hvalue
  exact ⟨d, hd, hlong, hvalue⟩

/-- Such a count is converted exactly. -/
theorem unpack_toFloat (hd : Finite d) {n : ℕ} (hpos : 0 < n) (hlt : n < 2 ^ 53)
    (hvalue : d.value = n) :
    n.toUInt64.toFloat.toModel.unpack = .finite .positive d.mantissa d.exponent hd.pos := by
  have hword : n.toUInt64.toNat = n := by
    rw [UInt64.toNat_ofNat']
    exact Nat.mod_eq_of_lt (Nat.lt_trans hlt (by decide))
  -- the count is near the double that has its value, so it is rounded to it
  have hround : ofUInt64 Format.binary64 n.toUInt64 =
      .finite .positive d.mantissa d.exponent hd.pos := by
    have hcompare : compare (n : ℤ) 0 = .gt := Int.compare_eq_gt.mpr (by omega)
    have hnear : d.Near ((n : ℕ) * 2 ^ (0 : ℤ)) := by
      rw [zpow_zero, mul_one, ← hvalue]
      exact d.near_value
    rw [ofUInt64, hword, ofNat, ofInt, UnpackedFloat.normalize, hcompare]
    exact round_of_near hpos hd.toCanonical hnear .positive
  show unpack Format.binary64 (pack Format.binary64 (ofUInt64 Format.binary64 n.toUInt64)) = _
  rw [hround]
  exact unpack_pack hd .positive

end FactorStudy.Double
