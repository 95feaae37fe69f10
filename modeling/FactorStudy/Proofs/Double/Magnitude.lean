import FactorStudy.Proofs.Double.Rounding

/-!
# Bits and magnitudes

A double that is read from its bits is canonical, and a canonical magnitude within range is written
to bits that read as it again (`unpack_pack`). So a double is settled by its sign and magnitude
(`eq_of_unpack`), and the exact value that the program takes from the bits is the one the arithmetic
works on (`unpack_eq_dyadic`).
-/

namespace FactorStudy.Double

open Float.Model (Format)
open Float.Model.UnpackedFloat

/-- The magnitude of a double that is not 0. -/
structure Finite (d : Decimal.Dyadic) : Prop extends d.Canonical where
  high : d.exponent ≤ 971

section Bits

variable (b : BitVec Format.binary64.numBits)

/-- The two fields of a bit pattern as counts, and its sign. -/
abbrev exponentBits : ℕ := (unpackExponent b).toNat
abbrev mantissaBits : ℕ := (unpackMantissa b).toNat
abbrev signBit : Sign := Sign.ofBitVec (unpackSign b)

theorem exponentBits_lt : exponentBits b < 2048 := (unpackExponent b).isLt

theorem mantissaBits_lt : mantissaBits b < 2 ^ 52 := (unpackMantissa b).isLt

/-- A bit pattern is not finite, a zero, subnormal or normal, as its exponent field tells. -/
theorem unpack_cases :
    ((unpack Format.binary64 b).isFinite = false ∧ exponentBits b = 2047) ∨
    (unpack Format.binary64 b = .zero (signBit b) ∧ exponentBits b = 0 ∧ mantissaBits b = 0) ∨
    (∃ h, unpack Format.binary64 b = .finite (signBit b) (mantissaBits b) (-1074) h ∧
      exponentBits b = 0) ∨
    (∃ h, unpack Format.binary64 b =
        .finite (signBit b) (2 ^ 52 + mantissaBits b) (exponentBits b - 1075) h ∧
      0 < exponentBits b ∧ exponentBits b < 2047) := by
  have hexp := exponentBits_lt b
  have hbias : ((Format.binary64.exponentBias : ℤ) + Format.binary64.mantissaBitsWithoutImplicit) =
      1075 := by decide
  unfold unpack
  simp only [hbias]
  split
  · -- infinite or undefined
    rename_i hmax
    left
    refine ⟨?_, congrArg BitVec.toNat hmax⟩
    split <;> rfl
  · rename_i hmax
    have hmax : exponentBits b ≠ 2047 := fun h => hmax (BitVec.eq_of_toNat_eq h)
    right
    split
    · rename_i hzero
      have hzero : exponentBits b = 0 := congrArg BitVec.toNat hzero
      split
      · rename_i hman
        exact Or.inl ⟨rfl, hzero, congrArg BitVec.toNat hman⟩
      · rename_i hman
        right; left
        refine ⟨?_, ?_, hzero⟩
        · exact Nat.pos_of_ne_zero fun h => hman (BitVec.eq_of_toNat_eq h)
        · congr 1
          show (exponentBits b : ℤ) - 1075 + 1 = -1074
          omega
    · rename_i hzero
      have hzero : exponentBits b ≠ 0 := fun h => hzero (BitVec.eq_of_toNat_eq h)
      have hnat : (1#1 ++ unpackMantissa b).toNat = 2 ^ 52 + mantissaBits b := by
        rw [BitVec.toNat_append]
        exact (Nat.two_pow_add_eq_or_of_lt (mantissaBits_lt b) 1).symm
      right; right
      refine ⟨by omega, ?_, by omega, by omega⟩
      congr 1

end Bits

/-- What is read from bits is canonical. -/
theorem finite_of_unpack {b : BitVec Format.binary64.numBits} {s : Sign} {m : ℕ} {e : ℤ}
    {hm : 0 < m} (h : unpack Format.binary64 b = .finite s m e hm) : Finite ⟨m, e⟩ := by
  have hman := mantissaBits_lt b
  rcases unpack_cases b with ⟨hfin, -⟩ | ⟨hzero, -⟩ | ⟨hpos, hsub, -⟩ | ⟨hpos, hnormal, hlow, hhigh⟩
  · rw [h] at hfin
    cases hfin
  · rw [h] at hzero
    cases hzero
  · -- a subnormal double has the lowest exponent
    rw [h] at hsub
    cases hsub
    exact {
      pos := hm
      lt := Nat.lt_trans hman (by decide)
      low := le_refl _
      normal := Or.inr rfl
      high := by simp only; omega }
  · -- a normal one has the leading bit
    rw [h] at hnormal
    cases hnormal
    exact {
      pos := hm
      lt := by simp only; omega
      low := by simp only; omega
      normal := Or.inl (Nat.le_add_right _ _)
      high := by simp only; omega }

/-- What is written is read again. -/
theorem unpack_pack {d : Decimal.Dyadic} (hd : Finite d) (s : Sign) :
    unpack Format.binary64 (pack Format.binary64 (.finite s d.mantissa d.exponent hd.pos)) =
      .finite s d.mantissa d.exponent hd.pos := by
  obtain ⟨m, e⟩ := d
  have hlog : m.log2 < 53 := (Nat.log2_lt (Nat.ne_of_gt hd.pos)).mpr hd.lt
  have hlow : -1074 ≤ e := hd.low
  have hhigh : e ≤ 971 := hd.high
  have hbias : e + Format.binary64.exponentBias + Format.binary64.mantissaBitsWithoutImplicit =
      e + 1075 := by
    show e + 1023 + 52 = e + 1075
    omega
  have hfits : ¬ 2 ^ Format.binary64.exponentBits ≤ (e + 1075).toNat + 1 := by
    show ¬ 2048 ≤ (e + 1075).toNat + 1
    omega
  simp only [pack, hbias, if_neg hfits]
  by_cases hnormal : m.log2 + 1 = Format.binary64.mantissaBits
  · -- a normal double: the leading bit is left out of the mantissa field
    rw [if_pos hnormal]
    have hlong : 2 ^ 52 ≤ m := by
      have hlog : m.log2 = 52 := Nat.succ.inj hnormal
      exact hlog ▸ Nat.log2_self_le (Nat.ne_of_gt hd.pos)
    have hlt : m < 2 ^ 53 := hd.lt
    generalize hb : packComponents Format.binary64 s _ _ = b
    have hexp : exponentBits b = (e + 1075).toNat := by
      rw [exponentBits, ← hb, unpackExponent_packComponents, BitVec.toNat_ofNat]
      exact Nat.mod_eq_of_lt (by omega)
    have hman : mantissaBits b = m - 2 ^ 52 := by
      rw [mantissaBits, ← hb, unpackMantissa_packComponents, BitVec.toNat_ofNat]
      show m % 2 ^ 52 = _
      omega
    have hsign : signBit b = s := by
      rw [signBit, ← hb, unpackSign_packComponents, Sign.ofBitVec_toBitVec]
    rcases unpack_cases b with ⟨-, h⟩ | ⟨-, h, -⟩ | ⟨-, -, h⟩ | ⟨_, h, -⟩
    · omega
    · omega
    · omega
    · rw [h]
      congr 1
      · omega
      · omega
  · -- a subnormal one: the exponent field is 0 and the mantissa stands as it is
    rw [if_neg hnormal]
    have hlong : m.log2 < 52 := by
      have : m.log2 + 1 ≠ 53 := hnormal
      omega
    have hlt : m < 2 ^ 52 := (Nat.log2_lt (Nat.ne_of_gt hd.pos)).mp hlong
    have hmin : e = -1074 := by
      rcases hd.normal with h | h
      · exact absurd hlt (Nat.not_lt_of_le h)
      · exact h
    generalize hb : packComponents Format.binary64 s _ _ = b
    have hexp : exponentBits b = 0 := by
      rw [exponentBits, ← hb, unpackExponent_packComponents]
      rfl
    have hman : mantissaBits b = m := by
      rw [mantissaBits, ← hb, unpackMantissa_packComponents, BitVec.toNat_ofNat]
      exact Nat.mod_eq_of_lt hlt
    have hsign : signBit b = s := by
      rw [signBit, ← hb, unpackSign_packComponents, Sign.ofBitVec_toBitVec]
    have hpos : 0 < m := hd.pos
    rcases unpack_cases b with ⟨-, h⟩ | ⟨-, -, h⟩ | ⟨_, h, -⟩ | ⟨-, -, h, -⟩
    · omega
    · omega
    · rw [h]
      congr 1
      omega
    · omega

theorem pack_unpack (x : Float) : Float.ofModel (.pack x.toModel.unpack) = x :=
  Float.ofBits_toBits x

/-- A double is settled by what is read from its bits. -/
theorem eq_of_unpack {x y : Float} (h : x.toModel.unpack = y.toModel.unpack) : x = y := by
  rw [← pack_unpack x, h, pack_unpack]

/-! ## The exact value of a double -/

section Fields

variable (x : Float)

theorem exponentField_eq : Decimal.exponentField x = exponentBits x.toBits.toBitVec := by
  rw [Decimal.exponentField, exponentBits, unpackExponent_def, BitVec.extractLsb'_toNat,
    UInt64.toNat_and, UInt64.toNat_shiftRight]
  exact Nat.and_two_pow_sub_one_eq_mod _ 11

theorem fractionField_eq : Decimal.fractionField x = mantissaBits x.toBits.toBitVec := by
  rw [Decimal.fractionField, mantissaBits, unpackMantissa_def, BitVec.extractLsb'_toNat,
    UInt64.toNat_and]
  exact Nat.and_two_pow_sub_one_eq_mod _ 52

/-- The sign that the program tells from the first bit. -/
def signOf : Sign := if Decimal.isNegative x then .negative else .positive

theorem toNat_unpackSign (b : BitVec Format.binary64.numBits) :
    (unpackSign b).toNat = b.toNat / 2 ^ 63 := by
  have hlt : b.toNat < 2 ^ 64 := b.isLt
  rw [unpackSign_def, BitVec.extractLsb'_toNat]
  show b.toNat >>> 63 % 2 = _
  rw [Nat.shiftRight_eq_div_pow]
  omega

theorem signBit_eq : signBit x.toBits.toBitVec = signOf x := by
  have hfield : Decimal.isNegative x = true ↔ x.toBits.toBitVec.toNat / 2 ^ 63 = 1 := by
    rw [Decimal.isNegative, beq_iff_eq, ← UInt64.toNat_inj, UInt64.toNat_shiftRight]
    show x.toBits.toNat >>> 63 = 1 ↔ x.toBits.toNat / 2 ^ 63 = 1
    rw [Nat.shiftRight_eq_div_pow]
  have hbit := toNat_unpackSign x.toBits.toBitVec
  rw [signBit, Sign.ofBitVec, signOf]
  rw [← hbit] at hfield
  generalize unpackSign _ = v at *
  -- a field of one bit is 0 or 1
  by_cases hv : v = 0#1
  · subst hv
    rw [if_pos rfl, if_neg (by rw [hfield]; decide)]
  · have hone : v.toNat = 1 := by
      have hne : v.toNat ≠ 0 := fun h => hv (BitVec.eq_of_toNat_eq h)
      have := v.isLt
      omega
    rw [if_neg hv, if_pos (hfield.mpr hone)]

/-- A finite double is a zero or its magnitude with its sign. -/
theorem unpack_eq_dyadic (hx : x.isFinite = true) :
    (x.toModel.unpack = .zero (signOf x) ∧ (Decimal.dyadic x).mantissa = 0) ∨
      ∃ h, x.toModel.unpack =
        .finite (signOf x) (Decimal.dyadic x).mantissa (Decimal.dyadic x).exponent h := by
  have hsign := signBit_eq x
  unfold Decimal.dyadic
  rw [exponentField_eq, fractionField_eq]
  rcases unpack_cases x.toBits.toBitVec with
    ⟨hfin, -⟩ | ⟨h, hexp, hman⟩ | ⟨hpos, h, hexp⟩ | ⟨hpos, h, hexp, -⟩
  · rw [show x.isFinite = (unpack Format.binary64 x.toBits.toBitVec).isFinite from rfl, hfin] at hx
    cases hx
  · -- the exponent's bits tell a zero from a subnormal double and both from a normal one
    left
    rw [hexp]
    exact ⟨hsign ▸ h, hman⟩
  · right
    rw [hexp]
    exact ⟨hpos, hsign ▸ h⟩
  · right
    split
    · omega
    · rw [Nat.add_comm] at hpos
      refine ⟨hpos, ?_⟩
      rw [← hsign]
      simp only [Nat.add_comm (mantissaBits _)]
      exact h

end Fields

end FactorStudy.Double
