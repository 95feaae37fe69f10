import FactorStudy.Proofs.Decimal.Nearest
import FactorStudy.Proofs.Grammar.Token
import FactorStudy.Decimal.Text

/-!
# Printed doubles read back

A finite double is printed as a number of the grammar, after a minus where its sign bit is set
(`exists_token_plain`), and that number is worth the double's magnitude: positional notation keeps
the shortest digits, and these are near the double.
-/

namespace FactorStudy.Decimal

open Grammar (Exponent NumberToken isDigit_range)
open Grammar.NumberToken (fractionText)
open Float.Model.UnpackedFloat

/-! ## Positional notation -/

theorem ofDigits_eq (digits : List Char) : ofDigits digits = Nat.ofDigitChars 10 digits 0 := by
  unfold ofDigits Nat.ofDigitChars
  congr 1
  funext n c
  rw [Nat.mul_comm]

theorem ofDigits_digitsOf (n : ℕ) : ofDigits (digitsOf n) = n := by
  rw [ofDigits_eq, digitsOf, Nat.ofDigitChars_ten_toDigits]

theorem isDigit_of_mem_digitsOf {n : ℕ} {c : Char} (h : c ∈ digitsOf n) : c.isDigit = true :=
  Nat.isDigit_of_mem_toDigits (by decide) (by decide) h

theorem isDigit_of_mem_zeros {k : ℕ} {c : Char} (h : c ∈ List.replicate k '0') :
    c.isDigit = true := by
  rw [List.eq_of_mem_replicate h]
  decide

theorem ofDigits_zeros_append (k : ℕ) (digits : List Char) :
    ofDigits (List.replicate k '0' ++ digits) = ofDigits digits := by
  rw [ofDigits_eq, ofDigits_eq, Nat.ofDigitChars_append, Nat.ofDigitChars_replicate_zero,
    Nat.mul_zero]

theorem ofDigits_append_zeros (digits : List Char) (k : ℕ) :
    ofDigits (digits ++ List.replicate k '0') = ofDigits digits * 10 ^ k := by
  rw [ofDigits_eq, ofDigits_eq, Nat.ofDigitChars_append, Nat.ofDigitChars_replicate_zero,
    Nat.mul_comm]

/-- The number that a digit adds to those behind it. -/
theorem ofDigits_cons (c : Char) (s : List Char) :
    ofDigits (c :: s) = (c.toNat - '0'.toNat) * 10 ^ s.length + ofDigits s := by
  -- the library counts from a number in front, which the digits push up
  have hfrom : ∀ (s : List Char) (n : ℕ),
      Nat.ofDigitChars 10 s n = n * 10 ^ s.length + Nat.ofDigitChars 10 s 0 := by
    intro s
    induction s with
    | nil =>
      intro n
      rw [List.length_nil, pow_zero, mul_one]
      rfl
    | cons d s ih =>
      intro n
      rw [Nat.ofDigitChars_cons, Nat.ofDigitChars_cons, ih, ih (_ + _), List.length_cons]
      ring
  rw [ofDigits_eq, ofDigits_eq, Nat.ofDigitChars_cons, hfrom]
  simp

theorem ofDigits_lt {s : List Char} (h : ∀ c ∈ s, c.isDigit = true) :
    ofDigits s < 10 ^ s.length := by
  induction s with
  | nil => decide
  | cons c s ih =>
    have hc := isDigit_range (h c List.mem_cons_self)
    have hs := ih fun d hd => h d (List.mem_cons_of_mem c hd)
    rw [ofDigits_cons, List.length_cons, pow_succ]
    have hdigit : c.toNat - '0'.toNat ≤ 9 := by
      show c.toNat - 48 ≤ 9
      omega
    nlinarith

/-- Only zero itself is written with a zero in front. -/
theorem digitsOf_of_head?_eq_zero {n : ℕ} (h : (digitsOf n).head? = some '0') :
    digitsOf n = ['0'] := by
  rcases Nat.eq_zero_or_pos n with rfl | hn
  · rfl
  · obtain ⟨rest, hrest⟩ : ∃ rest, digitsOf n = '0' :: rest := List.head?_eq_some_iff.mp h
    -- the digits behind the zero are one too few for the number
    have hdigit : ∀ c ∈ rest, c.isDigit = true := fun c hc =>
      isDigit_of_mem_digitsOf (hrest ▸ List.mem_cons_of_mem '0' hc)
    have hvalue : n = ofDigits rest := by
      have := ofDigits_digitsOf n
      rw [hrest, ofDigits_cons, Nat.sub_self, Nat.zero_mul, Nat.zero_add] at this
      exact this.symm
    have hlt : n < 10 ^ rest.length := hvalue ▸ ofDigits_lt hdigit
    have hle : 10 ^ (digitCount n - 1) ≤ n := ten_pow_le hn
    have hcount : digitCount n = rest.length + 1 := congrArg List.length hrest
    rw [hcount, Nat.add_sub_cancel] at hle
    omega

/-- No superfluous zero stands in front of the number, and no point at its end. -/
structure Tidy (t : NumberToken) : Prop where
  whole_ne : t.whole ≠ []
  whole_zero : t.whole.head? = some '0' → t.whole = ['0']
  fraction_ne : t.fraction ≠ some []

/-- The number has the value of the decimal. -/
def Worth (t : NumberToken) (s : Scaled) : Prop := t.numeral.value = s.digits * 10 ^ s.exponent

/-- The number is the decimal in positional notation: digits and a point, and the same value. -/
structure Writes (t : NumberToken) (s : Scaled) : Prop where
  text : t.text = s.positional
  point : t.fraction = none ↔ 0 ≤ s.exponent
  exponent : t.exponent = none
  worth : Worth t s
  tidy : Tidy t

/-- Without an exponent, the digits and the places behind the point make the value. -/
theorem value_of_exponent_eq_none {t : NumberToken} (h : t.exponent = none) :
    t.numeral.value = ofDigits (t.whole ++ t.fraction.getD []) *
      10 ^ (-((t.fraction.getD []).length : ℤ)) := by
  rw [NumberToken.numeral, Numeral.value, h, Option.map_none, Option.getD_none, zero_sub]

/-- Without places behind the point there is no point. -/
theorem exists_positional_whole (s : Scaled) {k : ℕ} (hk : s.exponent = k) :
    ∃ t : NumberToken, Writes t s := by
  obtain ⟨n, e⟩ := s
  obtain rfl : e = k := hk
  have hplaces : (-(k : ℤ)).toNat = 0 := by omega
  -- a zero is not followed by further ones
  let zeros := if n = 0 then [] else List.replicate k '0'
  have hzeros : ∀ c ∈ zeros, c.isDigit = true := by
    intro c hc
    by_cases hn : n = 0
    · rw [show zeros = [] from if_pos hn] at hc
      cases hc
    · rw [show zeros = List.replicate k '0' from if_neg hn] at hc
      exact isDigit_of_mem_zeros hc
  have hvalue : ofDigits (digitsOf n ++ zeros) = n * 10 ^ k := by
    by_cases hn : n = 0
    · rw [show zeros = [] from if_pos hn, List.append_nil, ofDigits_digitsOf, hn, Nat.zero_mul]
    · rw [show zeros = List.replicate k '0' from if_neg hn, ofDigits_append_zeros,
        ofDigits_digitsOf]
  -- the digits of a number start with 0 only if it is 0
  have hhead : (digitsOf n ++ zeros).head? = some '0' → digitsOf n ++ zeros = ['0'] := by
    intro h
    have hne : digitsOf n ≠ [] := Nat.toDigits_ne_nil
    rw [List.head?_append_of_ne_nil _ hne] at h
    have hdigits := digitsOf_of_head?_eq_zero h
    have hn : n = 0 := by rw [← ofDigits_digitsOf n, hdigits]; rfl
    rw [show zeros = [] from if_pos hn, List.append_nil, hdigits]
  refine ⟨{
    whole := digitsOf n ++ zeros
    fraction := none
    exponent := none
    whole_digit := fun c hc => (List.mem_append.mp hc).elim isDigit_of_mem_digitsOf (hzeros c)
    fraction_digit := fun c hc => (List.not_mem_nil hc).elim
    digit := Or.inl (List.append_ne_nil_of_left_ne_nil Nat.toDigits_ne_nil _) },
    ⟨?_, iff_of_true rfl (Int.natCast_nonneg k), rfl, (value_of_exponent_eq_none rfl).trans ?_,
      ⟨List.append_ne_nil_of_left_ne_nil Nat.toDigits_ne_nil _, hhead, nofun⟩⟩⟩
  · show digitsOf n ++ zeros ++ ([] ++ []) = pointed (digitsOf n ++ zeros) (-(k : ℤ)).toNat
    rw [hplaces, pointed, if_pos rfl, List.append_nil, List.append_nil]
  · show (ofDigits (digitsOf n ++ zeros ++ []) : ℚ) * 10 ^ (-((0 : ℕ) : ℤ)) = n * 10 ^ (k : ℤ)
    rw [List.append_nil, hvalue]
    simp

/-- The digits of a number, filled up so that one is left in front of so many places. -/
def filled (n places : ℕ) : List Char :=
  List.replicate (places + 1 - (digitsOf n).length) '0' ++ digitsOf n

section Filled

variable (n places : ℕ)

theorem isDigit_of_mem_filled {n places : ℕ} {c : Char} (h : c ∈ filled n places) :
    c.isDigit = true :=
  (List.mem_append.mp h).elim isDigit_of_mem_zeros isDigit_of_mem_digitsOf

theorem lt_length_filled : places < (filled n places).length := by
  rw [filled, List.length_append, List.length_replicate]
  omega

/-- In front of the places stands one zero or a number without one in front. -/
theorem take_filled_of_head?_eq_zero
    (h : ((filled n places).take ((filled n places).length - places)).head? = some '0') :
    (filled n places).take ((filled n places).length - places) = ['0'] := by
  have hlength := lt_length_filled n places
  by_cases hfill : (digitsOf n).length ≤ places
  · -- filled up, there is one digit before the point
    have hone : (filled n places).length - places = 1 := by
      rw [filled, List.length_append, List.length_replicate]
      omega
    rw [hone] at h ⊢
    obtain ⟨rest, hrest⟩ := List.head?_eq_some_iff.mp h
    have hlast : rest = [] := by
      have := congrArg List.length hrest
      rw [List.length_take, List.length_cons] at this
      exact List.length_eq_zero_iff.mp (by omega)
    rw [hrest, hlast]
  · -- else the first digit is that of the number, which would be zero
    have hsame : filled n places = digitsOf n := by
      rw [filled, show places + 1 - (digitsOf n).length = 0 by omega]
      rfl
    rw [List.head?_take, if_neg (by omega), hsame] at h
    have hdigits := digitsOf_of_head?_eq_zero h
    rw [hdigits, List.length_singleton] at hfill
    rw [hsame, hdigits, show places = 0 by omega]
    rfl

end Filled

/-- With places behind the point, the digits are filled up so that one stands before it. -/
theorem exists_positional_pointed (s : Scaled) {k : ℕ} (hk : s.exponent = -(k + 1 : ℕ)) :
    ∃ t : NumberToken, Writes t s := by
  obtain ⟨n, e⟩ := s
  obtain rfl : e = -(k + 1 : ℕ) := hk
  have hplaces : (-(-((k + 1 : ℕ) : ℤ))).toNat = k + 1 := by omega
  have hzeros : (if n = 0 then [] else List.replicate (-((k + 1 : ℕ) : ℤ)).toNat '0') = [] := by
    rw [show (-((k + 1 : ℕ) : ℤ)).toNat = 0 by omega]
    split <;> rfl
  have hlength := lt_length_filled n (k + 1)
  -- there is one digit more than places, so both sides of the point have digits
  have hwhole : (filled n (k + 1)).take ((filled n (k + 1)).length - (k + 1)) ≠ [] := by
    intro h
    have := congrArg List.length h
    rw [List.length_take, List.length_nil] at this
    omega
  have hfraction : (filled n (k + 1)).drop ((filled n (k + 1)).length - (k + 1)) ≠ [] := by
    intro h
    have := congrArg List.length h
    rw [List.length_drop, List.length_nil] at this
    omega
  refine ⟨{
    whole := (filled n (k + 1)).take ((filled n (k + 1)).length - (k + 1))
    fraction := some ((filled n (k + 1)).drop ((filled n (k + 1)).length - (k + 1)))
    exponent := none
    whole_digit := fun c hc => isDigit_of_mem_filled (List.mem_of_mem_take hc)
    fraction_digit := fun c hc => isDigit_of_mem_filled (List.mem_of_mem_drop hc)
    digit := Or.inl hwhole },
    ⟨?_, iff_of_false (Option.some_ne_none _) ?_, rfl, (value_of_exponent_eq_none rfl).trans ?_,
      ⟨hwhole, take_filled_of_head?_eq_zero n (k + 1), fun h => hfraction (Option.some.inj h)⟩⟩⟩
  · show (filled n (k + 1)).take ((filled n (k + 1)).length - (k + 1)) ++
        ('.' :: (filled n (k + 1)).drop ((filled n (k + 1)).length - (k + 1)) ++ []) =
      pointed (digitsOf n ++ if n = 0 then [] else List.replicate (-((k + 1 : ℕ) : ℤ)).toNat '0')
        (-(-((k + 1 : ℕ) : ℤ))).toNat
    rw [hzeros, hplaces, List.append_nil, List.append_nil, pointed, if_neg (Nat.succ_ne_zero k)]
    rfl
  · show ¬ 0 ≤ -((k + 1 : ℕ) : ℤ)
    omega
  · show (ofDigits ((filled n (k + 1)).take ((filled n (k + 1)).length - (k + 1)) ++
        (filled n (k + 1)).drop ((filled n (k + 1)).length - (k + 1))) : ℚ) *
      10 ^ (-(((filled n (k + 1)).drop ((filled n (k + 1)).length - (k + 1))).length : ℤ)) =
        n * 10 ^ (-((k + 1 : ℕ) : ℤ))
    -- the zeros filled in stand in front
    have hvalue : ofDigits (filled n (k + 1)) = n := by
      rw [filled, ofDigits_zeros_append, ofDigits_digitsOf]
    rw [List.take_append_drop, hvalue, List.length_drop,
      show (filled n (k + 1)).length - ((filled n (k + 1)).length - (k + 1)) = k + 1 by omega]

/-- Every decimal can be written. -/
theorem exists_positional (s : Scaled) :
    ∃ t : NumberToken, Writes t s := by
  rcases Int.lt_or_le s.exponent 0 with hneg | hpos
  · exact @exists_positional_pointed s ((-s.exponent).toNat - 1) (by omega)
  · exact exists_positional_whole s (Int.eq_ofNat_of_zero_le hpos).choose_spec

/-! ## The printed form of a double -/

section Worth

variable {t : NumberToken} {tie : Tie}

/-- A number worth the magnitude as it is printed is read as the double without a sign. -/
theorem Worth.toFloat_shortest {d : Dyadic} {x : Float} {hpos : 0 < d.mantissa}
    (hx : x.toModel.unpack = .finite .positive d.mantissa d.exponent hpos)
    (h : Worth t (shortest tie d)) : t.numeral.toFloat = x := by
  have hd := (Double.finite_of_unpack hx).toCanonical
  obtain ⟨hdigits, hnear⟩ := near_shortest hd tie
  rw [← h] at hnear
  have hcount : 0 < ofDigits (t.numeral.whole ++ t.numeral.fraction) := by
    refine Nat.pos_of_ne_zero fun hzero => ?_
    have hpos := Double.Near.pos hd hnear
    rw [Numeral.value, hzero] at hpos
    simp at hpos
  exact nearest_of_near hx hcount hnear

theorem Worth.toFloat_zero (h : Worth t ⟨0, 0⟩) : t.numeral.toFloat = 0 := by
  have hzero : ofDigits (t.numeral.whole ++ t.numeral.fraction) = 0 := by
    have hpow : (10 : ℚ) ^ (t.numeral.exponent - t.numeral.fraction.length) ≠ 0 := by positivity
    rw [Worth, Numeral.value, Nat.cast_zero, zero_mul] at h
    exact_mod_cast (mul_eq_zero.mp h).resolve_right hpow
  rw [Numeral.toFloat, nearest, if_pos hzero]

end Worth

theorem isNaN_eq_false {x : Float} (hx : x.isFinite = true) : x.isNaN = false := by
  have hfinite : x.toModel.unpack.isFinite = true := hx
  show x.toModel.unpack.isNaN = false
  cases h : x.toModel.unpack with
  | notANumber => rw [h] at hfinite; cases hfinite
  | infinity s => rfl
  | zero s => rfl
  | finite s m e hm => rfl

/-- An undefined double has no sign bit: there is only one of them. -/
theorem isNegative_of_isNaN {x : Float} (hx : x.isNaN = true) : isNegative x = false := by
  have hmodel : x.toModel.unpack.isNaN = true := hx
  have hunpack : x.toModel.unpack = .notANumber := by
    cases h : x.toModel.unpack with
    | notANumber => rfl
    | infinity s => rw [h] at hmodel; cases hmodel
    | zero s => rw [h] at hmodel; cases hmodel
    | finite s m e hm => rw [h] at hmodel; cases hmodel
  rw [← Double.pack_unpack x, hunpack]
  decide +kernel

/-- The double with the other sign. -/
theorem exists_neg_eq {x : Float} {m : ℕ} {e : ℤ} {hpos : 0 < m}
    (hx : x.toModel.unpack = .finite .negative m e hpos) :
    ∃ y : Float, y.toModel.unpack = .finite .positive m e hpos ∧ -y = x := by
  have hd := Double.finite_of_unpack hx
  have hy := Double.unpack_pack hd .positive
  refine ⟨Float.ofModel (.pack (.finite .positive m e hpos)), hy, ?_⟩
  show Float.ofModel (.pack (.neg _)) = x
  rw [← Double.pack_unpack x, hx]
  exact congrArg (fun u => Float.ofModel (.pack (.neg u))) hy

/-- **Printed doubles read back.** A number worth the magnitude of a finite double as it is printed,
with a minus where the sign bit is set, is worth the double again, to the bit. -/
theorem Worth.eq_toFloat {x : Float} (hx : x.isFinite = true) {t : NumberToken} {tie : Tie}
    (h : Worth t (shortest tie (dyadic x))) :
    x = if isNegative x then -t.numeral.toFloat else t.numeral.toFloat := by
  rcases Double.unpack_eq_dyadic x hx with ⟨hzero, hmantissa⟩ | ⟨hpos, hfinite⟩
  · -- of the two zeros the sign bit is what the minus keeps apart
    have hshort : shortest tie (dyadic x) = ⟨0, 0⟩ := if_pos hmantissa
    have hworth : t.numeral.toFloat = 0 := (hshort ▸ h).toFloat_zero
    rw [hworth]
    cases hsign : isNegative x with
    | false =>
      rw [Double.signOf, hsign] at hzero
      exact Double.eq_of_unpack (hzero.trans rfl)
    | true =>
      rw [Double.signOf, hsign] at hzero
      exact Double.eq_of_unpack (hzero.trans rfl)
  · cases hsign : isNegative x with
    | false =>
      rw [Double.signOf, hsign] at hfinite
      exact (h.toFloat_shortest hfinite).symm
    | true =>
      rw [Double.signOf, hsign] at hfinite
      obtain ⟨y, hy, rfl⟩ := exists_neg_eq hfinite
      exact congrArg _ (h.toFloat_shortest hy).symm

/-- A finite double is printed as a number, after a minus where its sign bit is set, and that number
with the minus is worth the double again. -/
theorem exists_token_plain {x : Float} (hx : x.isFinite = true) :
    ∃ t : NumberToken,
      (plain x).toList = (if isNegative x then '-' :: t.text else t.text) ∧
      x = if isNegative x then -t.numeral.toFloat else t.numeral.toFloat := by
  obtain ⟨t, ht⟩ := exists_positional (shortest .up (dyadic x))
  refine ⟨t, ?_, ht.worth.eq_toFloat hx⟩
  rw [plain, if_neg (by rw [isNaN_eq_false hx]; decide), if_pos hx, signed, ← ht.text,
    String.toList_ofList]

end FactorStudy.Decimal
