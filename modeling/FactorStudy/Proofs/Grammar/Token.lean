import FactorStudy.Proofs.Grammar.Phrase

/-!
# Tokens in a text

A token ends where a character comes that cannot belong to it. The reader takes the longest stretch
of such characters, so it finds the end of a token exactly when what follows begins otherwise; the
same fact makes the split of a text into token and rest unique.

`Follows` is the form in which this is asked of the rest of a text: past blanks it is empty or
begins with one of a few characters. None of these is a blank or belongs to a word.
-/

namespace FactorStudy.Grammar

open Text (isBlank dropBlank)
open Expr.Parser (isNameChar)

/-! ## The longest stretch of a class of characters -/

section Stretch

variable {p : Char → Bool} {a a' b b' : List Char}

/-- The text is empty or begins with a character outside the class. -/
def StopsAt (p : Char → Bool) (b : List Char) : Prop := ∀ c, b.head? = some c → p c = false

theorem takeWhile_eq_nil_of_stopsAt (hb : StopsAt p b) : b.takeWhile p = [] := by
  cases b with
  | nil => rfl
  | cons c b => rw [List.takeWhile_cons, hb c rfl]; rfl

theorem dropWhile_eq_self_of_stopsAt (hb : StopsAt p b) : b.dropWhile p = b := by
  cases b with
  | nil => rfl
  | cons c b => rw [List.dropWhile_cons, hb c rfl]; rfl

theorem takeWhile_append_of_stopsAt (ha : ∀ c ∈ a, p c = true) (hb : StopsAt p b) :
    (a ++ b).takeWhile p = a := by
  rw [List.takeWhile_append_of_pos ha, takeWhile_eq_nil_of_stopsAt hb, List.append_nil]

theorem dropWhile_append_of_stopsAt (ha : ∀ c ∈ a, p c = true) (hb : StopsAt p b) :
    (a ++ b).dropWhile p = b := by
  rw [List.dropWhile_append_of_pos ha, dropWhile_eq_self_of_stopsAt hb]

/-- There is one way to split a text into a stretch of the class and a rest that stops it. -/
theorem append_inj_of_stopsAt (ha : ∀ c ∈ a, p c = true) (ha' : ∀ c ∈ a', p c = true)
    (hb : StopsAt p b) (hb' : StopsAt p b') (h : a ++ b = a' ++ b') : a = a' ∧ b = b' := by
  constructor
  · rw [← takeWhile_append_of_stopsAt ha hb, h, takeWhile_append_of_stopsAt ha' hb']
  · rw [← dropWhile_append_of_stopsAt ha hb, h, dropWhile_append_of_stopsAt ha' hb']

theorem stopsAt_dropWhile (p : Char → Bool) (s : List Char) : StopsAt p (s.dropWhile p) := by
  intro c hc
  have := List.head?_dropWhile_not p s
  rw [hc] at this
  simpa using this

theorem mem_takeWhile (p : Char → Bool) (s : List Char) : ∀ c ∈ s.takeWhile p, p c = true :=
  List.all_eq_true.mp List.all_takeWhile

theorem stopsAt_cons {c : Char} {s : List Char} (hc : p c = false) : StopsAt p (c :: s) := by
  intro d hd
  obtain rfl : c = d := Option.some.inj hd
  exact hc

end Stretch

/-! ## Classes of characters -/

/-- The characters of names and numbers, signs apart. -/
def isWordChar (c : Char) : Bool := isNameChar c || c == '.'

theorem isWordChar_of_isNameChar {c : Char} (h : isNameChar c = true) : isWordChar c = true := by
  rw [isWordChar, h]; rfl

theorem isNameChar_of_isDigit {c : Char} (h : c.isDigit = true) : isNameChar c = true := by
  simp [isNameChar, Char.isAlphanum, h]

theorem isWordChar_of_isDigit {c : Char} (h : c.isDigit = true) : isWordChar c = true :=
  isWordChar_of_isNameChar (isNameChar_of_isDigit h)

theorem isNameChar_of_first {c : Char} (h : c.isAlpha = true ∨ c = '_') : isNameChar c = true := by
  rcases h with h | rfl
  · simp [isNameChar, Char.isAlphanum, h]
  · decide

theorem isAlpha_range {c : Char} (h : c.isAlpha = true) : 65 ≤ c.toNat ∧ c.toNat ≤ 122 := by
  replace h : (decide (65 ≤ c.val ∧ c.val ≤ 90) ||
    (decide (97 ≤ c.val) && decide (c.val ≤ 122))) = true := h
  simp only [Bool.or_eq_true, Bool.and_eq_true, decide_eq_true_eq, UInt32.le_iff_toNat_le,
    UInt32.reduceToNat] at h
  have hval : c.toNat = c.val.toNat := rfl
  omega

theorem isDigit_range {c : Char} (h : c.isDigit = true) : 48 ≤ c.toNat ∧ c.toNat ≤ 57 := by
  replace h : (decide (48 ≤ c.val) && decide (c.val ≤ 57)) = true := h
  simp only [Bool.and_eq_true, decide_eq_true_eq, UInt32.le_iff_toNat_le,
    UInt32.reduceToNat] at h
  exact h

/-- Names do not begin as numbers do. -/
theorem ne_number_of_first {c : Char} (h : c.isAlpha = true ∨ c = '_') :
    ¬ (c.isDigit = true ∨ c = '.') := by
  rcases h with h | rfl
  · rintro (hdigit | rfl)
    · have hletter := isAlpha_range h
      have hcode := isDigit_range hdigit
      omega
    · exact absurd h (by decide)
  · decide

/-- Words are made of characters up to `z`, none of which is white space. -/
theorem isBlank_eq_false_of_isWordChar {c : Char} (h : isWordChar c = true) :
    isBlank c = false := by
  have hrange : 46 ≤ c.toNat ∧ c.toNat ≤ 122 := by
    simp only [isWordChar, isNameChar, Char.isAlphanum, Bool.or_eq_true, decide_eq_true_eq,
      beq_iff_eq] at h
    rcases h with ((h | h) | rfl) | rfl
    · have hletter := isAlpha_range h
      omega
    · have hcode := isDigit_range h
      omega
    · decide
    · decide
  -- the blanks lie below and above that range
  unfold isBlank
  simp only [Bool.or_eq_false_iff, Bool.and_eq_false_iff, decide_eq_false_iff_not, beq_eq_false_iff_ne]
  omega

/-! ## Blanks -/

theorem dropBlank_gap (g : Gap) (s : List Char) : dropBlank (g.chars ++ s) = dropBlank s :=
  List.dropWhile_append_of_pos g.blank

theorem dropBlank_cons {c : Char} (hc : isBlank c = false) (s : List Char) :
    dropBlank (c :: s) = c :: s :=
  dropWhile_eq_self_of_stopsAt (stopsAt_cons hc)

@[simp] theorem dropBlank_dropBlank (s : List Char) : dropBlank (dropBlank s) = dropBlank s :=
  dropWhile_eq_self_of_stopsAt (stopsAt_dropWhile isBlank s)

/-- The blanks that a reader passes over. -/
def gapOf (s : List Char) : Gap := ⟨s.takeWhile isBlank, mem_takeWhile isBlank s⟩

theorem gapOf_append_dropBlank (s : List Char) : (gapOf s).chars ++ dropBlank s = s :=
  List.takeWhile_append_dropWhile

theorem gapOf_append_of_dropBlank {s t : List Char} (h : dropBlank s = t) :
    (gapOf s).chars ++ t = s := h ▸ gapOf_append_dropBlank s

theorem gap_inj {g g' : Gap} {s s' : List Char} (hs : StopsAt isBlank s) (hs' : StopsAt isBlank s')
    (h : g.chars ++ s = g'.chars ++ s') : g = g' ∧ s = s' := by
  obtain ⟨hg, hrest⟩ := append_inj_of_stopsAt g.blank g'.blank hs hs' h
  exact ⟨Gap.ext hg, hrest⟩

/-! ## What may follow -/

/-- Past blanks, the text is empty or begins with one of the given characters. -/
def Follows (heads r : List Char) : Prop := ∀ c, (dropBlank r).head? = some c → c ∈ heads

def afterPrimary : List Char := ['+', '-', '*', '/', ')', ',']
def afterProduct : List Char := ['+', '-', ')', ',']
def afterSum : List Char := [')', ',']

theorem Gap.dropBlank_eq_nil (g : Gap) : dropBlank g.chars = [] := by
  rw [← List.append_nil g.chars, dropBlank_gap]
  rfl

theorem Gap.follows (g : Gap) (heads : List Char) : Follows heads g.chars := by
  intro c hc
  rw [g.dropBlank_eq_nil] at hc
  cases hc

/-- What may follow a power, and so a signed term: anything but a sign of power. -/
def FollowsPower (r : List Char) : Prop :=
  Follows afterPrimary r ∧ ∀ t, dropBlank r ≠ '*' :: '*' :: t

theorem Follows.mono {heads heads' r : List Char} (h : Follows heads r) (hsub : heads ⊆ heads') :
    Follows heads' r := fun c hc => hsub (h c hc)

theorem follows_gap {heads : List Char} (g : Gap) {c : Char} (hc : c ∈ heads)
    (hblank : isBlank c = false) (s : List Char) : Follows heads (g.chars ++ c :: s) := by
  intro d hd
  rw [dropBlank_gap, dropBlank_cons hblank] at hd
  obtain rfl : c = d := Option.some.inj hd
  exact hc

theorem followsPower_of_product {r : List Char} (h : Follows afterProduct r) : FollowsPower r := by
  refine ⟨h.mono (by decide), fun t ht => ?_⟩
  exact absurd (h '*' (by rw [ht]; rfl)) (by decide)

/-- Blanks end a word, and so does whatever else cannot belong to it. -/
theorem stopsAt_word_gap (g : Gap) {s : List Char} (hs : StopsAt isWordChar s) :
    StopsAt isWordChar (g.chars ++ s) := by
  cases hg : g.chars with
  | nil => exact hs
  | cons c t =>
    -- the first blank is no character of words
    refine stopsAt_cons ?_
    have hblank := g.blank c (by rw [hg]; exact List.mem_cons_self)
    cases hword : isWordChar c with
    | false => rfl
    | true => rw [isBlank_eq_false_of_isWordChar hword] at hblank; cases hblank

/-- What follows a primary does not go on with its word. -/
theorem Follows.stopsAt_word {r : List Char} (h : Follows afterPrimary r) :
    StopsAt isWordChar r := by
  rw [← gapOf_append_dropBlank r]
  refine stopsAt_word_gap _ fun c hc => ?_
  have hmem := h c hc
  simp only [afterPrimary, List.mem_cons, List.not_mem_nil, or_false] at hmem
  rcases hmem with rfl | rfl | rfl | rfl | rfl | rfl <;> decide

theorem StopsAt.mono {p q : Char → Bool} {r : List Char} (h : StopsAt q r)
    (hpq : ∀ c, p c = true → q c = true) : StopsAt p r := by
  intro c hc
  have := h c hc
  cases hp : p c with
  | false => rfl
  | true => rw [hpq c hp] at this; cases this

/-! ## Numbers -/

theorem stopsAt_append_of_ne_nil {p : Char → Bool} {a : List Char} (hne : a ≠ [])
    (ha : ∀ c ∈ a, p c = false) (b : List Char) : StopsAt p (a ++ b) := by
  cases a with
  | nil => exact absurd rfl hne
  | cons c a => exact stopsAt_cons (ha c List.mem_cons_self)

def isSign (c : Char) : Bool := c == '+' || c == '-'

theorem isSign_eq_false_of_isDigit {c : Char} (h : c.isDigit = true) : isSign c = false := by
  cases hsign : isSign c with
  | false => rfl
  | true =>
    simp only [isSign, Bool.or_eq_true, beq_iff_eq] at hsign
    rcases hsign with rfl | rfl <;> exact absurd h (by decide)

namespace Exponent

theorem sign_isSign (x : Exponent) : ∀ c ∈ x.sign, isSign c = true := by
  intro c hc
  rcases x.sign_mem with h | h | h <;> rw [h] at hc
  · cases hc
  · obtain rfl := List.mem_singleton.mp hc; decide
  · obtain rfl := List.mem_singleton.mp hc; decide

theorem stopsAt_sign_digits (x : Exponent) (r : List Char) : StopsAt isSign (x.digits ++ r) :=
  stopsAt_append_of_ne_nil x.digits_ne
    (fun c hc => isSign_eq_false_of_isDigit (x.digits_digit c hc)) r

end Exponent

namespace NumberToken

/-- An exponent, or what follows a number without one, goes on neither with digits nor with a
point. -/
theorem stopsAt_exponentText (x : Option Exponent) {r : List Char} (hr : StopsAt isWordChar r) :
    StopsAt (fun c => c.isDigit || c == '.') (exponentText x ++ r) := by
  cases x with
  | none =>
    refine hr.mono fun c hc => ?_
    rcases Bool.or_eq_true_iff.mp hc with h | h
    · exact isWordChar_of_isDigit h
    · simp [isWordChar, h]
  | some x =>
    refine stopsAt_cons ?_
    rcases x.letter_mem with h | h <;> rw [h] <;> decide

theorem stopsAt_digit_exponentText (x : Option Exponent) {r : List Char}
    (hr : StopsAt isWordChar r) : StopsAt Char.isDigit (exponentText x ++ r) :=
  (stopsAt_exponentText x hr).mono fun c hc => by rw [hc]; rfl

/-- A fraction, or what follows a number without one, does not go on with digits. -/
theorem stopsAt_digit_fraction (f : Option (List Char)) {s : List Char}
    (hs : StopsAt Char.isDigit s) : StopsAt Char.isDigit (fractionText f ++ s) := by
  cases f with
  | none => exact hs
  | some digits => exact stopsAt_cons (by decide)

theorem stopsAt_digit_fractionText (f : Option (List Char)) (x : Option Exponent) {r : List Char}
    (hr : StopsAt isWordChar r) :
    StopsAt Char.isDigit (fractionText f ++ (exponentText x ++ r)) :=
  stopsAt_digit_fraction f (stopsAt_digit_exponentText x hr)

theorem exponentText_ne_point (x : Option Exponent) {r : List Char} (hr : StopsAt isWordChar r)
    (u : List Char) : exponentText x ++ r ≠ '.' :: u := by
  intro h
  exact absurd (stopsAt_exponentText x hr '.' (by rw [h]; rfl)) (by decide)

end NumberToken

end FactorStudy.Grammar
