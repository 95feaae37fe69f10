import FactorStudy.Json.Writer
import FactorStudy.Json.Reader
import FactorStudy.Proofs.Decimal.Compact
import FactorStudy.Proofs.Grammar.Number

/-!
# Numbers and strings in JSON

The reader of numbers takes a tidy number as a whole, and keeps it as an integer exactly when it was
written as one, without a point and an exponent. So finite doubles and small integers come back as
what they were (`number?_double`, `number?_integer`), and every string does (`string?_quoted`).
-/

namespace FactorStudy.Json

open Decimal (Tidy digitsOf ofDigits ofDigits_digitsOf digitsOf_of_head?_eq_zero)
open Grammar (NumberToken Exponent StopsAt isWordChar isWordChar_of_isDigit
  takeWhile_append_of_stopsAt dropWhile_append_of_stopsAt isDigit_range)
open Grammar.NumberToken

/-! ## Numbers -/

section Number

variable {r : List Char}

theorem fraction?_text {f : Option (List Char)} (hf : ∀ c ∈ f.getD [], c.isDigit = true)
    (hne : f ≠ some []) (x : Option Exponent) (hr : StopsAt isWordChar r) :
    fraction? (fractionText f ++ (exponentText x ++ r)) =
      some (f.getD [], exponentText x ++ r) := by
  cases f with
  | none =>
    unfold fraction?
    split
    · rename_i u heq
      exact absurd heq (exponentText_ne_point x hr u)
    · rfl
  | some digits =>
    have hstop := stopsAt_digit_exponentText x hr
    have hdigits : digits ≠ [] := fun h => hne (congrArg some h)
    rw [Option.getD_some] at hf ⊢
    show (if (digits ++ _).takeWhile _ = [] then none
      else some ((digits ++ _).takeWhile _, (digits ++ _).dropWhile _)) = _
    rw [takeWhile_append_of_stopsAt hf hstop, dropWhile_append_of_stopsAt hf hstop,
      if_neg hdigits]

theorem exponent?_text (x : Option Exponent) (hr : StopsAt isWordChar r) :
    exponent? (exponentText x ++ r) = some ((x.map Exponent.value).getD 0, r) := by
  cases x with
  | none =>
    cases r with
    | nil => rfl
    | cons c r =>
      have hc : ¬ (c = 'e' ∨ c = 'E') := by
        rintro (rfl | rfl) <;> exact absurd (hr _ rfl) (by decide)
      exact if_neg hc
  | some x =>
    have hread := readExponent?_text x (hr.mono fun c hc => isWordChar_of_isDigit hc)
    exact (if_pos x.letter_mem).trans hread

/-- A number behind its sign. -/
def magnitude? (minus : Bool) (t : List Char) : Option (Json × List Char) := do
  let whole := t.takeWhile Char.isDigit
  let afterWhole := t.dropWhile Char.isDigit
  if whole = [] ∨ (whole.head? = some '0' ∧ whole ≠ ['0']) then none
  else
    let (fraction, afterFraction) ← fraction? afterWhole
    let (exponent, rest) ← exponent? afterFraction
    let size := ofDigits whole
    let n : Int := if minus then -(size : Int) else size
    if afterWhole.length = rest.length ∧ isSmall n ∧ ¬ (minus ∧ size = 0) then
      return (integer n, rest)
    else
      let x := (⟨whole, fraction, exponent⟩ : Decimal.Numeral).toFloat
      return (double (if minus then -x else x), rest)

theorem number?_minus (t : List Char) : number? ('-' :: t) = magnitude? true t := rfl

/-- A digit is no sign. -/
theorem number?_digit {c : Char} (hc : c.isDigit = true) (t : List Char) :
    number? (c :: t) = magnitude? false (c :: t) := by
  unfold number?
  split
  rename_i minus u hsplit
  split at hsplit
  · rename_i hcons
    rw [(List.cons.inj hcons).1] at hc
    exact absurd hc (by decide)
  · obtain ⟨rfl, rfl⟩ := Prod.mk.inj hsplit
    rfl

/-- A number is kept as an integer when there is neither a point nor an exponent. -/
def kept (minus : Bool) (t : NumberToken) : Json :=
  let size := ofDigits t.whole
  let n : Int := if minus then -(size : Int) else size
  if (t.fraction = none ∧ t.exponent = none) ∧ isSmall n ∧ ¬ (minus ∧ size = 0) then integer n
  else double (if minus then -t.numeral.toFloat else t.numeral.toFloat)

/-- What stands behind the digits in front is nothing exactly without a point and an exponent. -/
theorem length_tail_eq_iff (f : Option (List Char)) (x : Option Exponent) (r : List Char) :
    (fractionText f ++ (exponentText x ++ r)).length = r.length ↔ f = none ∧ x = none := by
  cases f with
  | none =>
    cases x with
    | none => exact iff_of_true rfl ⟨rfl, rfl⟩
    | some x =>
      refine iff_of_false (fun h => ?_) fun h => Option.some_ne_none x h.2
      simp only [fractionText, exponentText, Exponent.text, List.length_append, List.length_cons,
        List.length_nil] at h
      omega
  | some digits =>
    refine iff_of_false (fun h => ?_) fun h => Option.some_ne_none digits h.1
    simp only [fractionText, List.length_append, List.length_cons] at h
    omega

theorem magnitude?_text (minus : Bool) {t : NumberToken} (ht : Tidy t)
    (hr : StopsAt isWordChar r) : magnitude? minus (t.text ++ r) = some (kept minus t, r) := by
  have htext : t.text ++ r =
      t.whole ++ (fractionText t.fraction ++ (exponentText t.exponent ++ r)) := by
    simp only [NumberToken.text, List.append_assoc]
  have hstop := stopsAt_digit_fractionText t.fraction t.exponent hr
  have hwhole : ¬ (t.whole = [] ∨ (t.whole.head? = some '0' ∧ t.whole ≠ ['0'])) := by
    rintro (h | ⟨hzero, h⟩)
    · exact ht.whole_ne h
    · exact h (ht.whole_zero hzero)
  unfold magnitude?
  simp only [htext, takeWhile_append_of_stopsAt t.whole_digit hstop,
    dropWhile_append_of_stopsAt t.whole_digit hstop, if_neg hwhole,
    fraction?_text t.fraction_digit ht.fraction_ne t.exponent hr, exponent?_text t.exponent hr,
    Option.bind_eq_bind, Option.bind_some, length_tail_eq_iff]
  unfold kept
  simp only
  split_ifs <;> rfl

/-- A number that no word goes on from is taken as a whole. -/
theorem number?_text (minus : Bool) {t : NumberToken} (ht : Tidy t) (hr : StopsAt isWordChar r) :
    number? ((if minus then '-' :: t.text else t.text) ++ r) = some (kept minus t, r) := by
  rw [← magnitude?_text minus ht hr]
  cases minus with
  | true => exact number?_minus _
  | false =>
    obtain ⟨c, s, hcs⟩ := List.exists_cons_of_ne_nil ht.whole_ne
    have htext : t.text = c :: (s ++ (fractionText t.fraction ++ exponentText t.exponent)) := by
      rw [NumberToken.text, hcs, List.cons_append]
    show number? (t.text ++ r) = _
    rw [htext]
    exact number?_digit (t.whole_digit c (hcs ▸ List.mem_cons_self)) _

theorem number?_double {x : Float} (hx : x.isFinite = true) (hr : StopsAt isWordChar r) :
    number? ((Decimal.compact x).toList ++ r) = some (double x, r) := by
  obtain ⟨t, htidy, hmark, htext, hworth⟩ := Decimal.exists_token_compact hx
  have hkept : kept (Decimal.isNegative x) t = double x := by
    unfold kept
    rw [if_neg fun h => hmark.elim (· h.1.1) (· h.1.2), ← hworth]
  rw [htext, number?_text _ htidy hr, hkept]

theorem toList_toString (n : ℤ) : (toString n).toList =
    if decide (n < 0) then '-' :: digitsOf n.natAbs else digitsOf n.natAbs := by
  cases n with
  | ofNat k =>
    simp [toString, Int.repr, Nat.repr]
    rfl
  | negSucc k =>
    simp [toString, Int.repr, Nat.repr]
    rfl

theorem number?_integer {n : ℤ} (hn : isSmall n = true) (hr : StopsAt isWordChar r) :
    number? ((toString n).toList ++ r) = some (integer n, r) := by
  have hdigits : digitsOf n.natAbs ≠ [] := Nat.toDigits_ne_nil
  let t : NumberToken := {
    whole := digitsOf n.natAbs
    fraction := none
    exponent := none
    whole_digit := fun _ => Decimal.isDigit_of_mem_digitsOf
    fraction_digit := fun c hc => (List.not_mem_nil hc).elim
    digit := Or.inl hdigits }
  have htext : t.text = digitsOf n.natAbs := List.append_nil _
  -- an integer is kept as one: it has no point, no exponent, and is small
  have hkept : kept (decide (n < 0)) t = integer n := by
    have hsize : ofDigits t.whole = n.natAbs := ofDigits_digitsOf _
    unfold kept
    simp only [hsize, decide_eq_true_eq]
    by_cases hneg : n < 0
    · rw [if_pos hneg, show (-(n.natAbs : ℤ)) = n by omega]
      exact if_pos ⟨⟨rfl, rfl⟩, hn, by omega⟩
    · rw [if_neg hneg, show (n.natAbs : ℤ) = n by omega]
      exact if_pos ⟨⟨rfl, rfl⟩, hn, by omega⟩
  have htidy : Tidy t := ⟨hdigits, digitsOf_of_head?_eq_zero, fun h => nomatch h⟩
  rw [toList_toString, ← htext, number?_text _ htidy hr, hkept]

end Number

/-! ## Strings -/

/-- The two digits of a control character stand for it. -/
theorem codeUnit?_control : ∀ n < 0x20, ∀ s : List Char,
    codeUnit? ('0' :: '0' :: hexDigit (n / 16) :: hexDigit (n % 16) :: s) = some (n, s) := by
  intro n hn s
  have hhigh : Text.hexByte? '0' '0' = some 0 := by decide
  have hlow : ∀ n < 0x20, Text.hexByte? (hexDigit (n / 16)) (hexDigit (n % 16)) =
    some (UInt8.ofNat n) := by decide
  have hbyte : (UInt8.ofNat n).toNat = n := Nat.mod_eq_of_lt (by omega)
  show (do
    let high ← Text.hexByte? '0' '0'
    let low ← Text.hexByte? (hexDigit (n / 16)) (hexDigit (n % 16))
    return (high.toNat * 256 + low.toNat, s)) = some (n, s)
  rw [hhigh, hlow n hn]
  show some (0 * 256 + (UInt8.ofNat n).toNat, s) = _
  rw [hbyte, Nat.zero_mul, Nat.zero_add]

/-- The character is written as it is. -/
theorem escaped_eq_self {c : Char} (hquote : c ≠ '"') (hslash : c ≠ '\\') (hc : 0x20 ≤ c.toNat) :
    escaped c = [c] := by
  unfold escaped
  rw [if_neg hquote, if_neg hslash, if_neg, if_neg, if_neg, if_neg, if_neg, if_neg (by omega)]
  all_goals
    rintro rfl
    exact absurd hc (by decide)

/-- Every other character is written as an escape, and is what the escape stands for. -/
theorem exists_escape {c : Char} (h : c = '"' ∨ c = '\\' ∨ c.toNat < 0x20) :
    ∃ tail, escaped c = '\\' :: tail ∧ ∀ s, escape? true (tail ++ s) = some (c, s) := by
  by_cases hquote : c = '"'
  · exact ⟨['"'], if_pos hquote, fun s => by rw [hquote]; rfl⟩
  by_cases hslash : c = '\\'
  · exact ⟨['\\'], by rw [hslash]; rfl, fun s => by rw [hslash]; rfl⟩
  by_cases hb : c = '\x08'
  · exact ⟨['b'], by rw [hb]; rfl, fun s => by rw [hb]; rfl⟩
  by_cases hf : c = '\x0c'
  · exact ⟨['f'], by rw [hf]; rfl, fun s => by rw [hf]; rfl⟩
  by_cases hn : c = '\n'
  · exact ⟨['n'], by rw [hn]; rfl, fun s => by rw [hn]; rfl⟩
  by_cases hr : c = '\r'
  · exact ⟨['r'], by rw [hr]; rfl, fun s => by rw [hr]; rfl⟩
  by_cases ht : c = '\t'
  · exact ⟨['t'], by rw [ht]; rfl, fun s => by rw [ht]; rfl⟩
  · -- the other control characters are written by their number
    have hc : c.toNat < 0x20 := (h.resolve_left hquote).resolve_left hslash
    refine ⟨['u', '0', '0', hexDigit (c.toNat / 16), hexDigit (c.toNat % 16)], ?_, fun s => ?_⟩
    · rw [escaped, if_neg hquote, if_neg hslash, if_neg hb, if_neg hf, if_neg hn, if_neg hr,
        if_neg ht, if_pos hc]
    · show (codeUnit? ('0' :: '0' :: hexDigit (c.toNat / 16) :: hexDigit (c.toNat % 16) :: s)).bind
        _ = _
      rw [codeUnit?_control c.toNat hc, Option.bind_some]
      simp only
      rw [if_neg (by decide), if_neg (by omega), if_neg (by omega), Char.ofNat_toNat]
      rfl

theorem escaped_ne_nil (c : Char) : escaped c ≠ [] := by
  by_cases h : c = '"' ∨ c = '\\' ∨ c.toNat < 0x20
  · obtain ⟨tail, htail, -⟩ := exists_escape h
    rw [htail]
    exact List.cons_ne_nil _ _
  · rw [not_or, not_or, not_lt] at h
    rw [escaped_eq_self h.1 h.2.1 h.2.2]
    exact List.cons_ne_nil _ _

/-- A character is read from the way it is written. -/
theorem characters?_escaped (c : Char) (fuel : ℕ) (s : List Char) :
    characters? true (fuel + 1) (escaped c ++ s) =
      (characters? true fuel s).bind fun (cs, rest) => some (c :: cs, rest) := by
  by_cases h : c = '"' ∨ c = '\\' ∨ c.toNat < 0x20
  · obtain ⟨tail, htail, hescape⟩ := exists_escape h
    rw [htail, List.cons_append, characters?, if_neg (by decide), if_pos rfl, hescape]
    rfl
  · rw [not_or, not_or, not_lt] at h
    rw [escaped_eq_self h.1 h.2.1 h.2.2, List.singleton_append, characters?, if_neg h.1,
      if_neg h.2.1, if_neg (by omega)]
    rfl

theorem characters?_flatMap (r : List Char) : ∀ (cs : List Char) (fuel : ℕ),
    (cs.flatMap escaped).length < fuel →
      characters? true fuel (cs.flatMap escaped ++ '"' :: r) = some (cs, r) := by
  intro cs
  induction cs with
  | nil =>
    intro fuel hfuel
    obtain ⟨k, rfl⟩ := Nat.exists_eq_add_of_lt hfuel
    rfl
  | cons c cs ih =>
    intro fuel hfuel
    obtain ⟨k, rfl⟩ := Nat.exists_eq_add_one_of_ne_zero (Nat.ne_zero_of_lt hfuel)
    rw [List.flatMap_cons, List.length_append] at hfuel
    have hpos : 0 < (escaped c).length := List.length_pos_iff.mpr (escaped_ne_nil c)
    rw [List.flatMap_cons, List.append_assoc, characters?_escaped, ih k (by omega)]
    rfl

theorem string?_quoted (s : String) (r : List Char) :
    string? true (s.toList.flatMap escaped ++ '"' :: r) = some (s, r) := by
  have hfuel : (s.toList.flatMap escaped).length <
      (s.toList.flatMap escaped ++ '"' :: r).length + 1 := by
    rw [List.length_append]
    omega
  rw [string?, characters?_flatMap r s.toList _ hfuel, Option.map_some]
  simp only [String.ofList_toList]

end FactorStudy.Json
