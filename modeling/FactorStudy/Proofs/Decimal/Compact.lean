import FactorStudy.Proofs.Decimal.Text

/-!
# Doubles in stored reports

A finite double stands in a stored report as a number with a point or an exponent, without a
superfluous zero in front, and that number is worth the double to the bit (`exists_token_compact`).
The point or the exponent is what tells it from a count.
-/

namespace FactorStudy.Decimal

open Grammar (Exponent NumberToken)

/-- The number is told from a count, and is the decimal. -/
structure WritesDouble (t : NumberToken) (s : Scaled) : Prop where
  mark : t.fraction ≠ none ∨ t.exponent ≠ none
  worth : Worth t s
  tidy : Tidy t

variable {s : Scaled}

/-- A whole number is written with one place behind the point. -/
theorem exists_positional_place (hs : 0 ≤ s.exponent) :
    ∃ t : NumberToken, t.text = s.positional ++ ['.', '0'] ∧ WritesDouble t s := by
  obtain ⟨t, ht⟩ := exists_positional s
  -- the exponent is not negative, so the positional text has no point yet
  have hfraction : t.fraction = none := ht.point.mpr hs
  have htext : t.whole = s.positional := by
    rw [← ht.text, NumberToken.text, hfraction, ht.exponent]
    exact (List.append_nil _).symm
  have hvalue : (ofDigits t.whole : ℚ) = s.digits * 10 ^ s.exponent := by
    have h := (value_of_exponent_eq_none ht.exponent).symm.trans ht.worth
    rw [hfraction] at h
    simpa using h
  refine ⟨{
    whole := t.whole
    fraction := some ['0']
    exponent := none
    whole_digit := t.whole_digit
    fraction_digit := fun c hc => by
      rw [List.mem_singleton.mp hc]
      decide
    digit := Or.inl ht.tidy.whole_ne },
    ?_, Or.inl (Option.some_ne_none _), (value_of_exponent_eq_none rfl).trans ?_,
    ⟨ht.tidy.whole_ne, ht.tidy.whole_zero, fun h => List.cons_ne_nil _ _ (Option.some.inj h)⟩⟩
  · rw [← htext]
    rfl
  · -- the digit behind the point is a 0, which changes the units and not the number
    show (ofDigits (t.whole ++ List.replicate 1 '0') : ℚ) * 10 ^ (-((1 : ℕ) : ℤ)) = _
    rw [ofDigits_append_zeros, ← hvalue]
    push_cast
    field_simp

theorem exponentLetter_mem : 'e' = 'e' ∨ 'e' = 'E' := Or.inl rfl

/-- The exponent with its sign. -/
def exponentOf (e : ℤ) : Exponent where
  letter := 'e'
  sign := [if e < 0 then '-' else '+']
  digits := digitsOf e.natAbs
  letter_mem := exponentLetter_mem
  sign_mem := by
    split
    · exact Or.inr (Or.inr rfl)
    · exact Or.inr (Or.inl rfl)
  digits_digit := fun _ => isDigit_of_mem_digitsOf
  digits_ne := Nat.toDigits_ne_nil

theorem value_exponentOf (e : ℤ) : (exponentOf e).value = e := by
  unfold Exponent.value exponentOf
  simp only [ofDigits_digitsOf]
  by_cases he : e < 0
  · rw [if_pos he, if_pos rfl]
    omega
  · rw [if_neg he, if_neg (by decide)]
    omega

/-- One digit stands before the point, and the exponent makes up for the others. -/
theorem exists_scientific (s : Scaled) :
    ∃ t : NumberToken, t.text = s.scientific ∧ WritesDouble t s := by
  obtain ⟨n, e⟩ := s
  obtain ⟨lead, rest, hdigits⟩ : ∃ lead rest, digitsOf n = lead :: rest :=
    List.exists_cons_of_ne_nil Nat.toDigits_ne_nil
  have hdigit : ∀ c ∈ lead :: rest, c.isDigit = true := fun c hc =>
    isDigit_of_mem_digitsOf (hdigits ▸ hc)
  have hlength : ((digitsOf n).length - 1 : ℕ) = rest.length := by rw [hdigits]; rfl
  let places := if rest = [] then none else some rest
  -- a single digit gets no point at all
  have hplaces : places.getD [] = rest := by
    by_cases hrest : rest = []
    · rw [show places = none from if_pos hrest, hrest]
      rfl
    · rw [show places = some rest from if_neg hrest]
      rfl
  refine ⟨{
    whole := [lead]
    fraction := places
    exponent := some (exponentOf (e + rest.length))
    whole_digit := fun c hc => hdigit c (List.mem_singleton.mp hc ▸ List.mem_cons_self)
    fraction_digit := fun c hc => hdigit c (List.mem_cons_of_mem lead (hplaces ▸ hc))
    digit := Or.inl (List.cons_ne_nil _ _) },
    ?_, Or.inr (Option.some_ne_none _), ?_, List.cons_ne_nil _ _, fun h => ?_, ?_⟩
  · -- the text
    rw [Scaled.scientific]
    simp only [hlength]
    rw [hdigits]
    cases rest with
    | nil => rfl
    | cons d rest => rfl
  · -- the number: all digits, moved by as many places as stand behind the point
    show (ofDigits (lead :: places.getD []) : ℚ) * 10 ^ ((exponentOf (e + rest.length)).value -
      (places.getD []).length) = n * 10 ^ e
    rw [hplaces, ← hdigits, ofDigits_digitsOf, value_exponentOf, add_sub_cancel_right]
  · exact congrArg (fun c => [c]) (Option.some.inj h)
  · show places ≠ some []
    by_cases hrest : rest = []
    · rw [show places = none from if_pos hrest]
      exact nofun
    · rw [show places = some rest from if_neg hrest]
      exact fun h => hrest (Option.some.inj h)

/-- **Doubles in stored reports.** A finite double stands there as a number that is told from a
count, after a minus where its sign bit is set, and is worth the double again. -/
theorem exists_token_compact {x : Float} (hx : x.isFinite = true) :
    ∃ t : NumberToken, Tidy t ∧ (t.fraction ≠ none ∨ t.exponent ≠ none) ∧
      (compact x).toList = (if isNegative x then '-' :: t.text else t.text) ∧
      x = if isNegative x then -t.numeral.toFloat else t.numeral.toFloat := by
  rw [compact]
  generalize hshort : shortest .toEven (dyadic x) = s
  simp only [signed, String.toList_ofList]
  suffices h : ∃ t : NumberToken, t.text = (if s.digits = 0 then ['0', '.', '0']
      else if -5 ≤ s.exponent + (digitCount s.digits - 1 : ℕ) ∧
          s.exponent + (digitCount s.digits - 1 : ℕ) ≤ 15 then
        if 0 ≤ s.exponent then s.positional ++ ['.', '0'] else s.positional
      else s.scientific) ∧ WritesDouble t s by
    obtain ⟨t, htext, ht⟩ := h
    exact ⟨t, ht.tidy, ht.mark, by rw [htext], (hshort ▸ ht.worth).eq_toFloat hx⟩
  by_cases hzero : s.digits = 0
  · -- zero is kept with nothing but its sign
    rw [if_pos hzero]
    refine ⟨⟨['0'], some ['0'], none, ?_, ?_, Or.inl (List.cons_ne_nil _ _)⟩, rfl,
      Or.inl (Option.some_ne_none _), ?_, List.cons_ne_nil _ _, fun _ => rfl, ?_⟩
    · intro c hc
      rw [List.mem_singleton.mp hc]
      decide
    · intro c hc
      rw [List.mem_singleton.mp hc]
      decide
    · rw [Worth, Numeral.value, hzero]
      show ((0 : ℕ) : ℚ) * _ = _
      rw [Nat.cast_zero, zero_mul, zero_mul]
    · exact fun h => List.cons_ne_nil _ _ (Option.some.inj h)
  · rw [if_neg hzero]
    by_cases hlead : -5 ≤ s.exponent + (digitCount s.digits - 1 : ℕ) ∧
        s.exponent + (digitCount s.digits - 1 : ℕ) ≤ 15
    · rw [if_pos hlead]
      by_cases hwhole : 0 ≤ s.exponent
      · rw [if_pos hwhole]
        exact exists_positional_place hwhole
      · rw [if_neg hwhole]
        obtain ⟨t, ht⟩ := exists_positional s
        exact ⟨t, ht.text, Or.inl fun h => hwhole (ht.point.mp h), ht.worth, ht.tidy⟩
    · rw [if_neg hlead]
      exact exists_scientific s

end FactorStudy.Decimal
