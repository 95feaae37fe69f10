import FactorStudy.Proofs.Grammar.Token

/-!
# Numbers in a text

The reader of numerals takes exactly the numbers of the grammar: what it takes is a number with the
rest as it found it, and on a number that no word goes on from it takes that number. A letter `e`
without digits after it is left alone, so it belongs to the rest and never to a number.
-/

namespace FactorStudy.Grammar

open Decimal (readFraction readExponent? readExponent readNumeral? splitSign ofDigits)

namespace NumberToken

/-! ## Reading a number that is there -/

theorem readFraction_of_ne_point {s : List Char} (h : ∀ u, s ≠ '.' :: u) :
    readFraction s = ([], s) := by
  unfold readFraction
  split
  · rename_i u
    exact absurd rfl (h u)
  · rfl

/-- A fraction or none is read up to the first character that is neither a digit nor a point. -/
theorem readFraction_append {f : Option (List Char)} (hf : ∀ c ∈ f.getD [], c.isDigit = true)
    {s : List Char} (hs : StopsAt (fun c => c.isDigit || c == '.') s) :
    readFraction (fractionText f ++ s) = (f.getD [], s) := by
  cases f with
  | none =>
    refine readFraction_of_ne_point ?_
    rintro u (rfl : s = _)
    exact absurd (hs '.' rfl) (by decide)
  | some digits =>
    have hstop : StopsAt Char.isDigit s := hs.mono fun c hc => by rw [hc]; rfl
    show ((digits ++ _).takeWhile _, (digits ++ _).dropWhile _) = _
    rw [Option.getD_some] at hf ⊢
    rw [takeWhile_append_of_stopsAt hf hstop, dropWhile_append_of_stopsAt hf hstop]

theorem splitSign_of_stopsAt {s : List Char} (h : StopsAt isSign s) : splitSign s = (false, s) := by
  unfold splitSign
  split
  · exact absurd (h _ rfl) (by decide)
  · exact absurd (h _ rfl) (by decide)
  · rfl

theorem splitSign_text (x : Exponent) (r : List Char) :
    splitSign (x.sign ++ (x.digits ++ r)) = (decide (x.sign = ['-']), x.digits ++ r) := by
  rcases x.sign_mem with h | h | h <;> rw [h]
  · exact splitSign_of_stopsAt (x.stopsAt_sign_digits r)
  · rfl
  · rfl

theorem readExponent?_text (x : Exponent) {r : List Char} (hr : StopsAt Char.isDigit r) :
    readExponent? (x.text ++ r) = some (x.value, r) := by
  have hdigits : (x.digits ++ r).takeWhile Char.isDigit = x.digits :=
    takeWhile_append_of_stopsAt x.digits_digit hr
  have hrest : (x.digits ++ r).dropWhile Char.isDigit = r :=
    dropWhile_append_of_stopsAt x.digits_digit hr
  show readExponent? (x.letter :: (x.sign ++ x.digits ++ r)) = _
  rw [readExponent?, if_pos x.letter_mem, List.append_assoc, splitSign_text]
  simp only [hdigits, hrest, if_neg x.digits_ne, decide_eq_true_eq]
  rfl

theorem readExponent_text (x : Option Exponent) {r : List Char} (hr : StopsAt isWordChar r) :
    readExponent (exponentText x ++ r) = ((x.map Exponent.value).getD 0, r) := by
  cases x with
  | none =>
    cases r with
    | nil => rfl
    | cons c r =>
      -- no number is written here, so the letter of an exponent is not what follows
      have hc : ¬ (c = 'e' ∨ c = 'E') := by
        rintro (rfl | rfl) <;> exact absurd (hr _ rfl) (by decide)
      show (readExponent? (c :: r)).getD _ = _
      rw [readExponent?, if_neg hc]
      rfl
  | some x =>
    show (readExponent? (x.text ++ r)).getD _ = _
    rw [readExponent?_text x (hr.mono fun c hc => isWordChar_of_isDigit hc)]
    rfl

/-- On a number that no word goes on from, the reader takes that number. -/
theorem readNumeral?_text (t : NumberToken) {r : List Char} (hr : StopsAt isWordChar r) :
    readNumeral? (t.text ++ r) = some (t.numeral, r) := by
  have hstop := stopsAt_digit_fractionText t.fraction t.exponent hr
  have htext : t.text ++ r
      = t.whole ++ (fractionText t.fraction ++ (exponentText t.exponent ++ r)) := by
    simp only [text, List.append_assoc]
  have hdigit : ¬ (t.whole = [] ∧ t.fraction.getD [] = []) := fun h =>
    t.digit.elim (· h.1) (· h.2)
  rw [htext, readNumeral?, takeWhile_append_of_stopsAt t.whole_digit hstop,
    dropWhile_append_of_stopsAt t.whole_digit hstop,
    readFraction_append t.fraction_digit (stopsAt_exponentText t.exponent hr)]
  simp only [if_neg hdigit, readExponent_text t.exponent hr]
  rfl

/-! ## What is read is a number -/

theorem readFraction_split (s : List Char) :
    ∃ f : Option (List Char), (∀ c ∈ f.getD [], c.isDigit = true) ∧
      (readFraction s).1 = f.getD [] ∧ fractionText f ++ (readFraction s).2 = s := by
  unfold readFraction
  split
  · rename_i u
    refine ⟨some (u.takeWhile Char.isDigit), mem_takeWhile _ u, rfl, ?_⟩
    show '.' :: (u.takeWhile Char.isDigit ++ u.dropWhile Char.isDigit) = '.' :: u
    rw [List.takeWhile_append_dropWhile]
  · exact ⟨none, fun _ hc => (List.not_mem_nil hc).elim, rfl, rfl⟩

theorem splitSign_split (s : List Char) :
    ∃ sign : List Char, (sign = [] ∨ sign = ['+'] ∨ sign = ['-']) ∧
      (splitSign s).1 = decide (sign = ['-']) ∧ sign ++ (splitSign s).2 = s := by
  unfold splitSign
  split
  · exact ⟨['-'], by simp, rfl, rfl⟩
  · exact ⟨['+'], by simp, rfl, rfl⟩
  · exact ⟨[], by simp, rfl, rfl⟩

theorem readExponent_split (s : List Char) :
    ∃ x : Option Exponent, (readExponent s).1 = (x.map Exponent.value).getD 0 ∧
      exponentText x ++ (readExponent s).2 = s := by
  cases s with
  | nil => exact ⟨none, rfl, rfl⟩
  | cons c s =>
    obtain ⟨sign, hsign, hminus, hs⟩ := splitSign_split s
    show ∃ x : Option Exponent, ((readExponent? (c :: s)).getD (0, c :: s)).1 = _ ∧
      exponentText x ++ ((readExponent? (c :: s)).getD (0, c :: s)).2 = c :: s
    rw [readExponent?]
    by_cases hc : c = 'e' ∨ c = 'E'
    · by_cases hne : (splitSign s).2.takeWhile Char.isDigit = []
      · -- a letter without digits behind it is left to what follows
        exact ⟨none, by simp [hc, hne], by simp [hc, hne, exponentText]⟩
      · refine ⟨some ⟨c, sign, (splitSign s).2.takeWhile Char.isDigit, hc, hsign,
          mem_takeWhile _ _, hne⟩, ?_, ?_⟩
        · simp [hc, hne, hminus, Exponent.value]
        · simp only [hc, hne, if_true, if_false, Option.getD_some, exponentText, Exponent.text,
            List.cons_append, List.append_assoc, List.takeWhile_append_dropWhile, hs]
    · exact ⟨none, by simp [hc], by simp [hc, exponentText]⟩

/-- What the reader takes is a number, and it leaves the text behind it as it was. -/
theorem exists_of_readNumeral? {s r : List Char} {n : Decimal.Numeral}
    (h : readNumeral? s = some (n, r)) : ∃ t : NumberToken, t.text ++ r = s ∧ t.numeral = n := by
  obtain ⟨f, hf, hfraction, hpoint⟩ := readFraction_split (s.dropWhile Char.isDigit)
  obtain ⟨x, hx, hexponent⟩ := readExponent_split (readFraction (s.dropWhile Char.isDigit)).2
  rw [readNumeral?] at h
  simp only at h
  split at h
  · cases h
  · rename_i hdigit
    simp only [Option.some.injEq, Prod.mk.injEq] at h
    obtain ⟨rfl, rfl⟩ := h
    rw [hfraction] at hdigit
    refine ⟨⟨s.takeWhile Char.isDigit, f, x, mem_takeWhile _ s, hf, ?_⟩, ?_, ?_⟩
    · by_cases hw : s.takeWhile Char.isDigit = []
      · exact Or.inr fun hn => hdigit ⟨hw, hn⟩
      · exact Or.inl hw
    · simp only [text, List.append_assoc]
      rw [hexponent, hpoint, List.takeWhile_append_dropWhile]
    · rw [numeral, hfraction, hx]

/-! ## A text begins with at most one number -/

theorem fraction_inj {f f' : Option (List Char)} {x x' : Option Exponent} {r r' : List Char}
    (hf : ∀ c ∈ f.getD [], c.isDigit = true) (hf' : ∀ c ∈ f'.getD [], c.isDigit = true)
    (hr : StopsAt isWordChar r) (hr' : StopsAt isWordChar r')
    (h : fractionText f ++ (exponentText x ++ r) = fractionText f' ++ (exponentText x' ++ r')) :
    f = f' ∧ exponentText x ++ r = exponentText x' ++ r' := by
  cases f with
  | none =>
    cases f' with
    | none => exact ⟨rfl, h⟩
    -- a point after the number without one
    | some digits' => exact absurd h (exponentText_ne_point x hr _)
  | some digits =>
    cases f' with
    | none => exact absurd h.symm (exponentText_ne_point x' hr' _)
    | some digits' =>
      obtain ⟨hdigits, hrest⟩ := append_inj_of_stopsAt hf hf' (stopsAt_digit_exponentText x hr)
        (stopsAt_digit_exponentText x' hr') (List.cons.inj h).2
      exact ⟨congrArg some hdigits, hrest⟩

/-- A text that no word goes on from does not begin with an exponent. -/
theorem ne_exponentText {r : List Char} (hr : StopsAt isWordChar r) (x : Exponent)
    (s : List Char) : r ≠ exponentText (some x) ++ s := by
  rintro rfl
  have hletter := hr x.letter rfl
  rcases x.letter_mem with he | he <;> rw [he] at hletter <;> exact absurd hletter (by decide)

theorem exponent_inj {x x' : Option Exponent} {r r' : List Char}
    (hr : StopsAt isWordChar r) (hr' : StopsAt isWordChar r')
    (h : exponentText x ++ r = exponentText x' ++ r') : x = x' ∧ r = r' := by
  -- where one has an exponent and the other has none, a letter would be no word character
  cases x with
  | none =>
    cases x' with
    | none => exact ⟨rfl, h⟩
    | some x' => exact absurd h (ne_exponentText hr x' r')
  | some x =>
    cases x' with
    | none => exact absurd h.symm (ne_exponentText hr' x r)
    | some x' =>
      simp only [exponentText, Exponent.text, List.cons_append, List.append_assoc] at h
      obtain ⟨hletter, htail⟩ := List.cons.inj h
      obtain ⟨hsign, hdigits⟩ := append_inj_of_stopsAt x.sign_isSign x'.sign_isSign
        (x.stopsAt_sign_digits r) (x'.stopsAt_sign_digits r') htail
      obtain ⟨hdigits, hrest⟩ := append_inj_of_stopsAt x.digits_digit x'.digits_digit
        (hr.mono fun c hc => isWordChar_of_isDigit hc)
        (hr'.mono fun c hc => isWordChar_of_isDigit hc) hdigits
      exact ⟨congrArg some (Exponent.ext hletter hsign hdigits), hrest⟩

theorem text_inj {t t' : NumberToken} {r r' : List Char} (hr : StopsAt isWordChar r)
    (hr' : StopsAt isWordChar r') (h : t.text ++ r = t'.text ++ r') : t = t' ∧ r = r' := by
  simp only [text, List.append_assoc] at h
  obtain ⟨hwhole, htail⟩ := append_inj_of_stopsAt t.whole_digit t'.whole_digit
    (stopsAt_digit_fractionText _ _ hr) (stopsAt_digit_fractionText _ _ hr') h
  obtain ⟨hfraction, htail⟩ := fraction_inj t.fraction_digit t'.fraction_digit hr hr' htail
  obtain ⟨hexponent, hrest⟩ := exponent_inj hr hr' htail
  exact ⟨NumberToken.ext hwhole hfraction hexponent, hrest⟩

end NumberToken

end FactorStudy.Grammar
