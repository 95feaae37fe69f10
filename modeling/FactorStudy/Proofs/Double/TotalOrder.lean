import FactorStudy.Proofs.Double.Value

/-!
# The total order of doubles

Sorting compares the bits of doubles. Without the sign they are a count, and counts are in the order
of the magnitudes that they stand for (`magnitude_mono`). So the total order is that of the values
(`value_le_of_totalOrderKey_le`); it tells all doubles apart (`totalOrderKey_inj`), and a minus
turns it around (`totalOrderKey_neg`). Taken of doubles without their signs it is an order of
sizes, in which the undefined value is the greatest (`larger_of_totalOrderKey_le`).
-/

namespace FactorStudy

open Number
open Float.Model (Format UnpackedFloat)
open Float.Model.UnpackedFloat hiding infinity

namespace Double

/-! ## Bits as counts -/

/-- The bits of a double without the sign, as a count. -/
def unsigned (x : Float) : ℕ := x.toBits.toNat % 2 ^ 63

/-- The magnitude that such a count stands for. -/
def magnitude (n : ℕ) : ℚ :=
  if n < 2 ^ 52 then n * 2 ^ (-1074 : ℤ)
  else (2 ^ 52 + n % 2 ^ 52 : ℕ) * 2 ^ ((n / 2 ^ 52 : ℕ) - 1075 : ℤ)

theorem magnitude_nonneg (n : ℕ) : 0 ≤ magnitude n := by
  unfold magnitude
  split <;> positivity

/-- Larger counts stand for larger magnitudes. -/
theorem magnitude_mono {n n' : ℕ} (h : n ≤ n') : magnitude n ≤ magnitude n' := by
  have hpow : ∀ {e e' : ℤ}, e ≤ e' → (2 : ℚ) ^ e ≤ 2 ^ e' := fun h =>
    zpow_le_zpow_right₀ one_le_two h
  unfold magnitude
  split
  · rename_i hlow
    split
    · exact mul_le_mul_of_nonneg_right (by exact_mod_cast h) (by positivity)
    · -- subnormal numbers lie below the normal ones
      exact mul_le_mul (by exact_mod_cast (show n ≤ 2 ^ 52 + n' % 2 ^ 52 by omega))
        (hpow (by omega)) (by positivity) (by positivity)
  · rename_i hlow
    rw [if_neg (by omega)]
    rcases Nat.lt_or_ge (n / 2 ^ 52) (n' / 2 ^ 52) with hexp | hexp
    · have hshort : ((2 ^ 52 + n % 2 ^ 52 : ℕ) : ℚ) ≤ 2 ^ 52 * 2 := by
        exact_mod_cast (show 2 ^ 52 + n % 2 ^ 52 ≤ 2 ^ 52 * 2 by omega)
      have hlong : (2 ^ 52 : ℚ) ≤ (2 ^ 52 + n' % 2 ^ 52 : ℕ) := by
        exact_mod_cast (show 2 ^ 52 ≤ 2 ^ 52 + n' % 2 ^ 52 by omega)
      calc ((2 ^ 52 + n % 2 ^ 52 : ℕ) : ℚ) * 2 ^ ((n / 2 ^ 52 : ℕ) - 1075 : ℤ)
          ≤ 2 ^ 52 * 2 * 2 ^ ((n / 2 ^ 52 : ℕ) - 1075 : ℤ) :=
            mul_le_mul_of_nonneg_right hshort (by positivity)
        _ = 2 ^ 52 * 2 ^ ((n / 2 ^ 52 : ℕ) - 1075 + 1 : ℤ) := by
            rw [zpow_add_one₀ two_ne_zero]
            ring
        _ ≤ (2 ^ 52 + n' % 2 ^ 52 : ℕ) * 2 ^ ((n' / 2 ^ 52 : ℕ) - 1075 : ℤ) :=
            mul_le_mul hlong (hpow (by omega)) (by positivity) (by positivity)
    · have hexp : n' / 2 ^ 52 = n / 2 ^ 52 := by omega
      rw [hexp]
      exact mul_le_mul_of_nonneg_right
        (by exact_mod_cast (show 2 ^ 52 + n % 2 ^ 52 ≤ 2 ^ 52 + n' % 2 ^ 52 by omega)) (by positivity)

theorem isNegative_iff (x : Float) : Decimal.isNegative x = true ↔ 2 ^ 63 ≤ x.toBits.toNat := by
  have hlt : x.toBits.toNat < 2 ^ 64 := x.toBits.toNat_lt
  rw [Decimal.isNegative, beq_iff_eq, ← UInt64.toNat_inj, UInt64.toNat_shiftRight]
  show x.toBits.toNat >>> 63 = 1 ↔ _
  rw [Nat.shiftRight_eq_div_pow]
  omega

/-- The place in the total order, by sign and count. -/
theorem totalOrderKey_eq (x : Float) : totalOrderKey x =
    match signOf x with
    | .positive => (unsigned x : ℤ)
    | .negative => -1 - (unsigned x : ℤ) := by
  have hlt : x.toBits.toNat < 2 ^ 64 := x.toBits.toNat_lt
  have htop : Nat.pow 2 63 = 2 ^ 63 := rfl
  have hsign := isNegative_iff x
  simp only [totalOrderKey, signOf, unsigned, htop]
  -- the top bit is the sign, and the rest counts the magnitude
  by_cases hneg : Decimal.isNegative x = true
  · have hge := hsign.mp hneg
    rw [if_pos hneg, if_neg (by omega)]
    simp only
    omega
  · have hge := mt hsign.mpr hneg
    rw [if_neg hneg, if_pos (by omega)]
    simp only
    omega

/-- The value of a finite double is its exact magnitude with its sign. -/
theorem value_eq_dyadic {x : Float} (hx : isFinite x = true) :
    value x = signed (signOf x) (Decimal.dyadic x).value := by
  rcases unpack_eq_dyadic x hx with ⟨hzero, hm⟩ | ⟨hm, hfinite⟩
  · rw [value_of_unpack_zero hzero, Decimal.Dyadic.value, hm, Nat.cast_zero, zero_mul, signed_zero]
  · exact value_of_unpack_finite hfinite

theorem value_dyadic_eq (x : Float) : (Decimal.dyadic x).value = magnitude (unsigned x) := by
  -- the model reads the bits with masks, the order with quotients and remainders
  have hexp : Decimal.exponentField x = unsigned x / 2 ^ 52 := by
    rw [Decimal.exponentField, UInt64.toNat_and, UInt64.toNat_shiftRight]
    refine (Nat.and_two_pow_sub_one_eq_mod _ 11).trans ?_
    show x.toBits.toNat >>> 52 % 2 ^ 11 = _
    rw [Nat.shiftRight_eq_div_pow, unsigned]
    omega
  have hfrac : Decimal.fractionField x = unsigned x % 2 ^ 52 := by
    rw [Decimal.fractionField, UInt64.toNat_and]
    refine (Nat.and_two_pow_sub_one_eq_mod _ 52).trans ?_
    rw [unsigned]
    omega
  unfold Decimal.dyadic magnitude
  rw [hexp, hfrac]
  split
  · rename_i hzero
    rw [if_pos (by omega), Decimal.Dyadic.value, Nat.mod_eq_of_lt (by omega)]
  · rename_i hne
    have hlong : 0 < unsigned x / 2 ^ 52 := Nat.pos_of_ne_zero hne
    rw [if_neg (by omega), Decimal.Dyadic.value, Nat.add_comm]
    rfl

/-- The bits of an infinity count up to the power of two beyond the doubles. -/
theorem magnitude_infinity : magnitude (2047 * 2 ^ 52) = limit := by
  rw [magnitude, if_neg (by decide), limit_eq]
  norm_num

/-- The value of a double is the magnitude that its bits count, with its sign. -/
theorem value_eq_magnitude {x : Float} (hx : isNaN x = false) :
    value x = signed (signOf x) (magnitude (unsigned x)) := by
  cases hfinite : isFinite x with
  | true => rw [value_eq_dyadic hfinite, value_dyadic_eq]
  | false =>
    rcases eq_of_isFinite_eq_false hfinite with rfl | rfl | rfl
    · cases hx
    · rw [value_of_unpack_infinity unpack_infinity, ← magnitude_infinity]
      rfl
    · rw [value_of_unpack_infinity unpack_neg_infinity, ← magnitude_infinity]
      rfl

/-- Larger in the total order is larger in value. -/
theorem value_le_of_totalOrderKey_le {x y : Float} (hx : isNaN x = false) (hy : isNaN y = false)
    (h : totalOrderKey x ≤ totalOrderKey y) : value x ≤ value y := by
  have hposx := magnitude_nonneg (unsigned x)
  have hposy := magnitude_nonneg (unsigned y)
  rw [totalOrderKey_eq, totalOrderKey_eq] at h
  rw [value_eq_magnitude hx, value_eq_magnitude hy]
  generalize signOf x = s at *
  generalize signOf y = t at *
  cases s <;> cases t <;> simp only [signed] at *
  · exact neg_le_neg (magnitude_mono (by omega))
  · linarith
  · omega
  · exact magnitude_mono (by omega)

/-! ## Opposites -/

/-- A bit pattern as a count, by its fields. -/
theorem toNat_bits (b : BitVec Format.binary64.numBits) :
    b.toNat = (unpackSign b).toNat * 2 ^ 63 + exponentBits b * 2 ^ 52 + mantissaBits b := by
  have hsign := toNat_unpackSign b
  have hlt : b.toNat < 2 ^ 64 := b.isLt
  have hexp : exponentBits b = b.toNat / 2 ^ 52 % 2 ^ 11 := by
    rw [exponentBits, unpackExponent_def, BitVec.extractLsb'_toNat, Nat.shiftRight_eq_div_pow]
  have hman : mantissaBits b = b.toNat % 2 ^ 52 := by
    rw [mantissaBits, unpackMantissa_def, BitVec.extractLsb'_toNat, Nat.shiftRight_eq_div_pow]
    show b.toNat / 2 ^ 0 % 2 ^ 52 = _
    rw [pow_zero, Nat.div_one]
  omega

theorem toNat_packComponents (s : Sign) (E : BitVec 11) (M : BitVec 52) :
    (packComponents Format.binary64 s E M).toNat =
      s.toBitVec.toNat * 2 ^ 63 + E.toNat * 2 ^ 52 + M.toNat := by
  rw [toNat_bits, exponentBits, mantissaBits, unpackSign_packComponents,
    unpackExponent_packComponents, unpackMantissa_packComponents]

/-- Doubles of opposite signs are written to bits that differ in the sign only. -/
theorem exists_pack (u : UnpackedFloat) (hu : u.isNaN = false) : ∃ s E M,
    pack Format.binary64 u = packComponents Format.binary64 s E M ∧
      pack Format.binary64 u.neg = packComponents Format.binary64 (-s) E M := by
  cases u with
  | notANumber => cases hu
  | infinity s => exact ⟨s, _, _, rfl, rfl⟩
  | zero s => exact ⟨s, _, _, rfl, rfl⟩
  | finite s m e hm =>
    simp only [UnpackedFloat.neg, pack]
    split
    · exact ⟨s, _, _, rfl, rfl⟩
    · split
      · exact ⟨s, _, _, rfl, rfl⟩
      · exact ⟨s, _, _, rfl, rfl⟩

end Double

/-- A minus turns the total order around. -/
theorem totalOrderKey_neg {x : Float} (hx : isNaN x = false) :
    totalOrderKey (-x) = -1 - totalOrderKey x := by
  -- the two doubles differ in the sign's bit only
  obtain ⟨s, E, M, hpack, hneg⟩ := Double.exists_pack x.toModel.unpack hx
  have hbits : x.toBits.toNat = s.toBitVec.toNat * 2 ^ 63 + E.toNat * 2 ^ 52 + M.toNat := by
    rw [← Double.toNat_packComponents, ← hpack]
    exact congrArg (fun y : Float => y.toBits.toNat) (Double.pack_unpack x).symm
  have hbits' : (-x).toBits.toNat = (-s).toBitVec.toNat * 2 ^ 63 + E.toNat * 2 ^ 52 + M.toNat := by
    rw [← Double.toNat_packComponents, ← hneg]
    rfl
  have hE : E.toNat < 2 ^ 11 := E.isLt
  have hM : M.toNat < 2 ^ 52 := M.isLt
  have hpositive : Sign.positive.toBitVec.toNat = 0 := rfl
  have hnegative : Sign.negative.toBitVec.toNat = 1 := rfl
  have htop : Nat.pow 2 63 = 2 ^ 63 := rfl
  simp only [totalOrderKey, hbits, hbits']
  cases s
  · have hflip : (-Sign.negative).toBitVec.toNat = 0 := rfl
    rw [hflip, hnegative, htop, if_pos (by omega), if_neg (by omega)]
    omega
  · have hflip : (-Sign.positive).toBitVec.toNat = 1 := rfl
    rw [hflip, hpositive, htop, if_neg (by omega), if_pos (by omega)]
    omega

/-- A double is settled by its place in the total order. -/
theorem totalOrderKey_inj {x y : Float} (h : totalOrderKey x = totalOrderKey y) : x = y := by
  have hx : x.toBits.toNat < 2 ^ 64 := x.toBits.toNat_lt
  have hy : y.toBits.toNat < 2 ^ 64 := y.toBits.toNat_lt
  have hbits : x.toBits.toNat = y.toBits.toNat := by
    simp only [totalOrderKey] at h
    split at h <;> split at h <;> omega
  rw [← Float.ofBits_toBits x, UInt64.toNat_inj.mp hbits, Float.ofBits_toBits]

namespace Double

/-! ## Sizes -/

theorem abs_eq_pack (x : Float) : x.abs = Float.ofModel (.pack x.toModel.unpack.abs) := rfl

/-- A number without its sign is the number or its opposite. -/
theorem abs_eq_self_or_neg (x : Float) : x.abs = x ∧ (isNaN x = false → 0 ≤ value x) ∨
    x.abs = -x ∧ (isNaN x = false → value x ≤ 0) := by
  -- clearing the sign either does nothing or does what the minus does
  have hpositive : ∀ {u : UnpackedFloat}, x.toModel.unpack = u → u.abs = u → x.abs = x := by
    intro u hu habs
    rw [abs_eq_pack, hu, habs, ← hu, pack_unpack]
  have hnegative : ∀ {u : UnpackedFloat}, x.toModel.unpack = u → u.abs = u.neg → x.abs = -x := by
    intro u hu habs
    rw [abs_eq_pack, hu, habs, ← hu]
    rfl
  rcases read_cases x with rfl | ⟨s, hu, hvalue⟩ | ⟨s, hu, hvalue⟩ | ⟨s, d, hd, hu, hvalue⟩
  · exact Or.inl ⟨rfl, fun h => by cases h⟩
  · rw [hvalue]
    cases s with
    | positive => exact Or.inl ⟨hpositive hu rfl, fun _ => limit_pos.le⟩
    | negative => exact Or.inr ⟨hnegative hu rfl, fun _ => neg_nonpos.mpr limit_pos.le⟩
  · rw [hvalue]
    cases s with
    | positive => exact Or.inl ⟨hpositive hu rfl, fun _ => le_rfl⟩
    | negative => exact Or.inr ⟨hnegative hu rfl, fun _ => le_rfl⟩
  · rw [hvalue]
    cases s with
    | positive => exact Or.inl ⟨hpositive hu rfl, fun _ => hd.value_pos.le⟩
    | negative => exact Or.inr ⟨hnegative hu rfl, fun _ => neg_nonpos.mpr hd.value_pos.le⟩

theorem isNaN_abs (x : Float) : isNaN x.abs = isNaN x := by
  rcases abs_eq_self_or_neg x with ⟨h, -⟩ | ⟨h, -⟩
  · rw [h]
  · rw [h, isNaN_neg]

theorem value_abs {x : Float} (hx : isNaN x = false) : value x.abs = |value x| := by
  rcases abs_eq_self_or_neg x with ⟨h, hsign⟩ | ⟨h, hsign⟩
  · rw [h, abs_of_nonneg (hsign hx)]
  · rw [h, value_neg, abs_of_nonpos (hsign hx)]

/-- No number stands behind the undefined value. -/
theorem totalOrderKey_lt_nan {x : Float} (hx : isNaN x = false) :
    totalOrderKey x < totalOrderKey nan := by
  by_contra hge
  have hbits : totalOrderKey nan ≤ totalOrderKey x := not_lt.mp hge
  cases hfinite : isFinite x with
  | false =>
    rcases eq_of_isFinite_eq_false hfinite with rfl | rfl | rfl
    · cases hx
    · exact absurd hbits (by decide)
    · exact absurd hbits (by decide)
  | true =>
    have hkey : (2047 * 2 ^ 52 : ℤ) ≤ totalOrderKey nan := by decide
    have hlarge := hkey.trans hbits
    rw [totalOrderKey_eq] at hlarge
    have hvalue := value_eq_magnitude hx
    have hsmall := (isFinite_iff_value hx).mp hfinite
    generalize signOf x = s at hlarge hvalue
    cases s with
    | positive =>
      -- so many bits count up to the limit of the finite doubles
      simp only at hlarge
      have hcount : 2047 * 2 ^ 52 ≤ unsigned x := by exact_mod_cast hlarge
      have hlimit := magnitude_mono hcount
      rw [magnitude_infinity] at hlimit
      rw [hvalue] at hsmall
      exact absurd ((le_abs_self _).trans_lt hsmall) (not_lt_of_ge hlimit)
    | negative =>
      simp only at hlarge
      omega

/-- Of two figures, the first is undefined or has the greater size. -/
def Larger (x y : Float) : Prop :=
  isNaN x = true ∨ isNaN x = false ∧ isNaN y = false ∧ |value y| ≤ |value x|

theorem larger_of_totalOrderKey_le {x y : Float}
    (h : totalOrderKey y.abs ≤ totalOrderKey x.abs) : Larger x y := by
  cases hx : isNaN x with
  | true => exact Or.inl hx
  | false =>
    have hxabs : isNaN x.abs = false := (isNaN_abs x).trans hx
    -- an undefined size would be the greatest of all
    have hy : isNaN y = false := by
      cases hy : isNaN y with
      | false => rfl
      | true =>
        have hyabs : y.abs = nan := eq_nan_of_isNaN ((isNaN_abs y).trans hy)
        rw [hyabs] at h
        exact absurd h (not_le_of_gt (totalOrderKey_lt_nan hxabs))
    refine Or.inr ⟨hx, hy, ?_⟩
    rw [← value_abs hx, ← value_abs hy]
    exact value_le_of_totalOrderKey_le ((isNaN_abs y).trans hy) hxabs h

end Double

/-! ## Sorting -/

theorem totalLe_trans (x y z : Float) (hxy : totalLe x y = true) (hyz : totalLe y z = true) :
    totalLe x z = true :=
  decide_eq_true (le_trans (of_decide_eq_true hxy) (of_decide_eq_true hyz))

theorem totalLe_total (x y : Float) : (totalLe x y || totalLe y x) = true := by
  rw [Bool.or_eq_true]
  exact (le_total (totalOrderKey x) (totalOrderKey y)).imp decide_eq_true decide_eq_true

end FactorStudy
