import FactorStudy.Proofs.Grammar.Seam
import FactorStudy.Proofs.Grammar.Sound

/-!
# Texts as tokens

The parser has no tokens of its own: it finds the end of a number, a name or the sign of powers in
the text itself. Here is what it should find. A token is a number, a name, two stars or any other
single character, the token at a place is the longest one that stands there (`Longest`), and a text
is a sequence of such tokens with blanks around them (`Tokens`). Every text is so in exactly one way
(`tokens_iff`), and it can be computed (`tokens`).

The one class of tokens where the longest is not obvious is that of numbers, since `1e` begins like
`1e5` and ends after the `1`. The reader of numerals leaves an end of whatever follows a number
(`exists_readNumeral?_append`), and so no number at that place is longer than what it takes.
-/

namespace FactorStudy.Grammar

open Text (isBlank dropBlank)
open Decimal (readFraction readExponent? readExponent readNumeral? splitSign)
open Expr.Parser (isNameChar)

/-! ## The longest number -/

namespace NumberToken

theorem suffix_readExponent (s : List Char) : (readExponent s).2 <:+ s := by
  obtain ⟨x, -, hx⟩ := readExponent_split s
  exact ⟨exponentText x, hx⟩

theorem suffix_readFraction (s : List Char) : (readFraction s).2 <:+ s := by
  obtain ⟨f, -, -, hf⟩ := readFraction_split s
  exact ⟨fractionText f, hf⟩

/-- After a complete exponent nothing is left but an end of what follows it. -/
theorem suffix_readExponent_text (x : Exponent) (u : List Char) :
    (readExponent (x.text ++ u)).2 <:+ u := by
  have hne : (x.digits ++ u).takeWhile Char.isDigit ≠ [] := by
    rw [List.takeWhile_append_of_pos x.digits_digit]
    exact List.append_ne_nil_of_left_ne_nil x.digits_ne _
  show ((readExponent? (x.letter :: (x.sign ++ x.digits ++ u))).getD _).2 <:+ u
  rw [readExponent?, if_pos x.letter_mem, List.append_assoc, splitSign_text]
  simp only [if_neg hne, Option.getD_some, List.dropWhile_append_of_pos x.digits_digit]
  exact List.dropWhile_suffix _

/-- A numeral is read where there is a digit on either side of the point. -/
theorem exists_readNumeral?_of_digit {s u : List Char}
    (hdigit : s.takeWhile Char.isDigit ≠ [] ∨ (readFraction (s.dropWhile Char.isDigit)).1 ≠ [])
    (hrest : (readExponent (readFraction (s.dropWhile Char.isDigit)).2).2 <:+ u) :
    ∃ n r, readNumeral? s = some (n, r) ∧ r <:+ u := by
  rw [readNumeral?]
  simp only
  rw [if_neg fun h => hdigit.elim (· h.1) (· h.2)]
  exact ⟨_, _, rfl, hrest⟩

theorem stopsAt_letter (x : Exponent) (u : List Char) :
    StopsAt (fun c => c.isDigit || c == '.') (x.text ++ u) := by
  refine stopsAt_cons ?_
  rcases x.letter_mem with h | h <;> rw [h] <;> decide

/-- Before any text, all of a number is read, and perhaps more. -/
theorem exists_readNumeral?_append (t : NumberToken) (u : List Char) :
    ∃ n r, readNumeral? (t.text ++ u) = some (n, r) ∧ r <:+ u := by
  obtain ⟨whole, fraction, exponent, hwhole, hfraction, hdigit⟩ := t
  have htext : (⟨whole, fraction, exponent, hwhole, hfraction, hdigit⟩ : NumberToken).text ++ u =
      whole ++ (fractionText fraction ++ (exponentText exponent ++ u)) := by
    simp only [text, List.append_assoc]
  rw [htext]
  rcases exponent with _ | x
  · rcases fraction with _ | digits
    · -- the digits may go on, and a point or an exponent may come
      have hne : whole ≠ [] := hdigit.elim id fun h => absurd rfl h
      refine exists_readNumeral?_of_digit (Or.inl ?_) ?_
      · rw [List.takeWhile_append_of_pos hwhole]
        exact List.append_ne_nil_of_left_ne_nil hne _
      · rw [List.dropWhile_append_of_pos hwhole]
        exact ((suffix_readExponent _).trans (suffix_readFraction _)).trans
          (List.dropWhile_suffix _)
    · -- the digits behind the point may go on, and an exponent may come
      have hdigits : ∀ c ∈ digits, c.isDigit = true := hfraction
      have hpoint : StopsAt Char.isDigit ('.' :: (digits ++ u)) := stopsAt_cons (by decide)
      show ∃ n r, readNumeral? (whole ++ '.' :: (digits ++ u)) = some (n, r) ∧ r <:+ u
      refine exists_readNumeral?_of_digit ?_ ?_
      · rw [takeWhile_append_of_stopsAt hwhole hpoint, dropWhile_append_of_stopsAt hwhole hpoint]
        refine hdigit.imp_right fun hne => ?_
        show (digits ++ u).takeWhile Char.isDigit ≠ []
        rw [List.takeWhile_append_of_pos hdigits]
        exact List.append_ne_nil_of_left_ne_nil hne _
      · rw [dropWhile_append_of_stopsAt hwhole hpoint]
        show (readExponent ((digits ++ u).dropWhile Char.isDigit)).2 <:+ u
        rw [List.dropWhile_append_of_pos hdigits]
        exact (suffix_readExponent _).trans (List.dropWhile_suffix _)
  · -- up to the letter of the exponent the number is as written
    have hletter := stopsAt_letter x u
    have hstop : StopsAt Char.isDigit (fractionText fraction ++ (x.text ++ u)) :=
      stopsAt_digit_fraction fraction (hletter.mono fun c hc => by rw [hc]; rfl)
    show ∃ n r, readNumeral? (whole ++ (fractionText fraction ++ (x.text ++ u))) = some (n, r) ∧ _
    refine exists_readNumeral?_of_digit ?_ ?_
    · rw [takeWhile_append_of_stopsAt hwhole hstop, dropWhile_append_of_stopsAt hwhole hstop,
        readFraction_append hfraction hletter]
      exact hdigit
    · rw [dropWhile_append_of_stopsAt hwhole hstop, readFraction_append hfraction hletter]
      exact suffix_readExponent_text x u

end NumberToken

/-! ## Tokens -/

/-- One piece of a text: a number, a name, the sign of powers, or any other character. -/
inductive IsToken : List Char → Prop
  | number (t : NumberToken) : IsToken t.text
  | name (x : Name) : IsToken x.text
  | stars : IsToken ['*', '*']
  | single {c : Char} (hblank : isBlank c = false) (hname : isNameChar c = false) : IsToken [c]

/-- The token stands before `rest`, and no longer token begins at its place. -/
structure Longest (token rest : List Char) : Prop where
  isToken : IsToken token
  le : ∀ {other}, IsToken other → other <+: token ++ rest → other.length ≤ token.length

theorem Name.isNameChar_first (x : Name) : isNameChar x.first = true :=
  isNameChar_of_first x.first_mem

theorem Name.isNameChar_text (x : Name) : ∀ c ∈ x.text, isNameChar c = true :=
  List.forall_mem_cons.mpr ⟨x.isNameChar_first, x.rest_mem⟩

theorem IsToken.exists_cons {token : List Char} (h : IsToken token) :
    ∃ c s, token = c :: s ∧ isBlank c = false := by
  cases h with
  | number t =>
    obtain ⟨c, s, htext, hc⟩ := t.exists_cons
    refine ⟨c, s, htext, isBlank_eq_false_of_isWordChar ?_⟩
    rcases hc with hc | rfl
    · exact isWordChar_of_isDigit hc
    · decide
  | name x =>
    exact ⟨x.first, x.rest, rfl,
      isBlank_eq_false_of_isWordChar (isWordChar_of_isNameChar x.isNameChar_first)⟩
  | stars => exact ⟨'*', ['*'], rfl, by decide⟩
  | single hblank _ => exact ⟨_, [], rfl, hblank⟩

theorem IsToken.length_pos {token : List Char} (h : IsToken token) : 0 < token.length := by
  obtain ⟨c, s, rfl, -⟩ := h.exists_cons
  exact Nat.succ_pos _

theorem IsToken.stopsAt_blank {token : List Char} (h : IsToken token) (rest : List Char) :
    StopsAt isBlank (token ++ rest) := by
  obtain ⟨c, s, rfl, hc⟩ := h.exists_cons
  exact stopsAt_cons hc

/-- The longest token at a place is one. -/
theorem Longest.unique {token token' rest rest' : List Char} (h : Longest token rest)
    (h' : Longest token' rest') (heq : token ++ rest = token' ++ rest') :
    token = token' ∧ rest = rest' := by
  have hle := h.le h'.isToken (heq ▸ List.prefix_append _ _)
  have hle' := h'.le h.isToken (heq ▸ List.prefix_append _ _)
  exact List.append_inj heq (Nat.le_antisymm hle' hle)

/-! ## The longest token of each kind -/

/-- No name begins where a number does. -/
theorem number_ne_name {t : NumberToken} {x : Name} {r u : List Char} :
    t.text ++ r ≠ x.text ++ u := by
  intro h
  obtain ⟨c, s, htext, hc⟩ := t.exists_cons
  rw [htext] at h
  obtain rfl : c = x.first := (List.cons.inj h).1
  exact ne_number_of_first x.first_mem hc

/-- Where a number or a name begins there is no star. -/
theorem ne_star_number (t : NumberToken) (r u : List Char) : t.text ++ r ≠ '*' :: u := by
  intro h
  obtain ⟨c, s, htext, hc⟩ := t.exists_cons
  rw [htext] at h
  obtain rfl : c = '*' := (List.cons.inj h).1
  exact absurd hc (by decide)

theorem ne_star_name (x : Name) (r u : List Char) : x.text ++ r ≠ '*' :: u := by
  intro h
  have hfirst := x.isNameChar_first
  rw [(List.cons.inj h).1] at hfirst
  exact absurd hfirst (by decide)

/-- What the reader of numerals takes is the longest token at its place. -/
theorem longest_number {s r : List Char} {n : Decimal.Numeral}
    (h : readNumeral? s = some (n, r)) :
    ∃ t : NumberToken, t.text ++ r = s ∧ t.numeral = n ∧ Longest t.text r := by
  obtain ⟨t, htext, hn⟩ := NumberToken.exists_of_readNumeral? h
  refine ⟨t, htext, hn, IsToken.number t, ?_⟩
  rintro other hother ⟨u, hu⟩
  cases hother with
  | number t' =>
    -- the reader leaves an end of what follows any number here, and it leaves `r`
    obtain ⟨n', r', hread, hsuffix⟩ := t'.exists_readNumeral?_append u
    rw [hu, htext, h] at hread
    cases hread
    have hlen := congrArg List.length hu
    have hle := hsuffix.length_le
    simp only [List.length_append] at hlen
    omega
  | name x => exact absurd hu.symm number_ne_name
  | stars => exact absurd hu.symm (ne_star_number t r _)
  | single => exact (IsToken.number t).length_pos

/-- Where a number is the longest token, the reader of numerals takes it. -/
theorem readNumeral?_of_longest {t : NumberToken} {r : List Char} (h : Longest t.text r) :
    readNumeral? (t.text ++ r) = some (t.numeral, r) := by
  obtain ⟨n, r', hread, -⟩ := t.exists_readNumeral?_append r
  obtain ⟨t', htext, rfl, hlongest⟩ := longest_number hread
  obtain ⟨heq, rfl⟩ := hlongest.unique h htext
  have hend : StopsAt isWordChar [] := fun c hc => by cases hc
  obtain ⟨rfl, -⟩ := NumberToken.text_inj hend hend (congrArg (· ++ []) heq)
  exact hread

theorem readNumeral?_eq_none {c : Char} (hc : ¬ (c.isDigit = true ∨ c = '.')) (s : List Char) :
    readNumeral? (c :: s) = none := by
  cases hread : readNumeral? (c :: s) with
  | none => rfl
  | some x =>
    obtain ⟨t, htext, -⟩ := NumberToken.exists_of_readNumeral? hread
    obtain ⟨d, u, hcons, hd⟩ := t.exists_cons
    rw [hcons] at htext
    exact absurd ((List.cons.inj htext).1 ▸ hd) hc

/-- A name that the text does not go on from is the longest token at its place. -/
theorem longest_name (x : Name) {r : List Char} (hr : StopsAt isNameChar r) :
    Longest x.text r := by
  refine ⟨IsToken.name x, ?_⟩
  rintro other hother ⟨u, hu⟩
  cases hother with
  | number t => exact absurd hu number_ne_name
  | name x' =>
    -- both names are taken from the same stretch of name characters, which ends with `x`
    have htake := congrArg (fun s => (s.takeWhile isNameChar).length) hu
    simp only [takeWhile_append_of_stopsAt x.isNameChar_text hr,
      List.takeWhile_append_of_pos x'.isNameChar_text, List.length_append] at htake
    omega
  | stars => exact absurd hu.symm (ne_star_name x r _)
  | single => exact (IsToken.name x).length_pos

/-- The text does not go on from a name that is the longest token. -/
theorem stopsAt_of_longest {x : Name} {r : List Char} (h : Longest x.text r) :
    StopsAt isNameChar r := by
  intro c hc
  cases hname : isNameChar c with
  | false => rfl
  | true =>
    obtain ⟨u, rfl⟩ : ∃ u, r = c :: u := List.head?_eq_some_iff.mp hc
    -- with that character, the name would be longer
    have hrest : ∀ d ∈ x.rest ++ [c], isNameChar d = true :=
      List.forall_mem_append.mpr ⟨x.rest_mem, List.forall_mem_singleton.mpr hname⟩
    have hle := h.le (IsToken.name ⟨x.first, x.rest ++ [c], x.first_mem, hrest⟩)
      ⟨u, by simp only [Name.text, List.cons_append, List.append_assoc, List.nil_append]⟩
    simp only [Name.text, List.length_cons, List.length_append, List.length_nil] at hle
    omega

theorem longest_stars (r : List Char) : Longest ['*', '*'] r := by
  refine ⟨IsToken.stars, ?_⟩
  rintro other hother ⟨u, hu⟩
  cases hother with
  | number t => exact absurd hu (ne_star_number t u _)
  | name x => exact absurd hu (ne_star_name x u _)
  | stars => exact Nat.le_refl _
  | single => exact Nat.le_succ 1

/-- A character where neither a number, a name nor two stars begin is a token. -/
theorem longest_single {c : Char} {r : List Char} (hblank : isBlank c = false)
    (hname : isNameChar c = false) (hnumber : readNumeral? (c :: r) = none)
    (hstars : ∀ u, c :: r ≠ '*' :: '*' :: u) : Longest [c] r := by
  refine ⟨IsToken.single hblank hname, ?_⟩
  rintro other hother ⟨u, hu⟩
  -- each longer kind of token would begin with something ruled out here
  cases hother with
  | number t =>
    obtain ⟨n, r', hread, -⟩ := t.exists_readNumeral?_append u
    rw [hu] at hread
    exact absurd (hnumber.symm.trans hread) (by simp)
  | name x =>
    obtain rfl : x.first = c := (List.cons.inj hu).1
    rw [x.isNameChar_first] at hname
    cases hname
  | stars => exact absurd hu.symm (hstars u)
  | single => exact Nat.le_refl _

/-! ## Every text is a sequence of tokens -/

/-- The text is these tokens, each the longest at its place, with any blanks before them, between
them and behind them. -/
inductive Tokens : List Char → List (List Char) → Prop
  | nil (g : Gap) : Tokens g.chars []
  | cons (g : Gap) {token rest : List Char} {others : List (List Char)} (h : Longest token rest)
      (hrest : Tokens rest others) : Tokens (g.chars ++ (token ++ rest)) (token :: others)

namespace Tokens

variable {s t token : List Char} {ts ts' : List (List Char)}

theorem dropBlank_eq_nil (h : Tokens s []) : dropBlank s = [] := by
  cases h with
  | nil g => exact g.dropBlank_eq_nil

theorem exists_rest (h : Tokens s (token :: ts)) :
    ∃ rest, dropBlank s = token ++ rest ∧ Longest token rest ∧ Tokens rest ts := by
  cases h with
  | cons g h hrest =>
    refine ⟨_, ?_, h, hrest⟩
    rw [dropBlank_gap]
    exact dropWhile_eq_self_of_stopsAt (h.isToken.stopsAt_blank _)

theorem of_dropBlank_eq_nil (h : dropBlank s = []) : Tokens s [] := by
  rw [← gapOf_append_of_dropBlank h, List.append_nil]
  exact .nil (gapOf s)

theorem of_dropBlank {rest : List Char} (hs : dropBlank s = token ++ rest)
    (h : Longest token rest) (hrest : Tokens rest ts) : Tokens s (token :: ts) := by
  rw [← gapOf_append_of_dropBlank hs]
  exact .cons (gapOf s) h hrest

/-- A text is one sequence of tokens only; the induction is on that sequence. -/
theorem unique (h : Tokens s ts) (h' : Tokens s ts') : ts = ts' := by
  induction ts generalizing s ts' with
  | nil =>
    cases ts' with
    | nil => rfl
    | cons token' ts' =>
      obtain ⟨rest, hs, hlongest, -⟩ := h'.exists_rest
      obtain ⟨c, u, rfl, -⟩ := hlongest.isToken.exists_cons
      exact absurd (h.dropBlank_eq_nil.symm.trans hs) (List.cons_ne_nil _ _).symm
  | cons token ts ih =>
    obtain ⟨rest, hs, hlongest, hrest⟩ := h.exists_rest
    cases ts' with
    | nil =>
      obtain ⟨c, u, rfl, -⟩ := hlongest.isToken.exists_cons
      exact absurd (h'.dropBlank_eq_nil.symm.trans hs) (List.cons_ne_nil _ _).symm
    | cons token' ts' =>
      obtain ⟨rest', hs', hlongest', hrest'⟩ := h'.exists_rest
      obtain ⟨rfl, rfl⟩ := hlongest.unique hlongest' (hs.symm.trans hs')
      rw [ih hrest hrest']

end Tokens

/-- The first token of a text without blanks in front, and the text behind it. -/
def splitToken (s : List Char) : List Char × List Char :=
  match readNumeral? s with
  | some (_, r) => (s.take (s.length - r.length), r)
  | none => match s with
    | '*' :: '*' :: r => (['*', '*'], r)
    | c :: r =>
      if isNameChar c then ((c :: r).takeWhile isNameChar, (c :: r).dropWhile isNameChar)
      else ([c], r)
    | [] => ([], [])

/-- A digit begins a number. -/
theorem readNumeral?_ne_none {c : Char} (hc : c.isDigit = true) (s : List Char) :
    readNumeral? (c :: s) ≠ none := by
  have hone : ∀ d ∈ [c], d.isDigit = true := List.forall_mem_singleton.mpr hc
  obtain ⟨n, r, hread, -⟩ := (⟨[c], none, none, hone, fun _ h => (List.not_mem_nil h).elim,
    Or.inl (List.cons_ne_nil c [])⟩ : NumberToken).exists_readNumeral?_append s
  intro h
  exact absurd (h.symm.trans hread) (by simp)

/-- A character of names that is no digit begins a name. -/
theorem first_of_isNameChar {c : Char} (hc : isNameChar c = true) (hdigit : c.isDigit = false) :
    c.isAlpha = true ∨ c = '_' := by
  simpa [isNameChar, Char.isAlphanum, hdigit] using hc

theorem longest_splitToken {c : Char} (hc : isBlank c = false) (s : List Char) :
    (splitToken (c :: s)).1 ++ (splitToken (c :: s)).2 = c :: s ∧
      Longest (splitToken (c :: s)).1 (splitToken (c :: s)).2 := by
  unfold splitToken
  cases hnumber : readNumeral? (c :: s) with
  | some x =>
    obtain ⟨t, htext, -, hlongest⟩ := longest_number hnumber
    have htake : (c :: s).take ((c :: s).length - x.2.length) = t.text := by
      rw [← htext, List.length_append, Nat.add_sub_cancel]
      exact List.take_left
    simp only [htake]
    exact ⟨htext, hlongest⟩
  | none =>
    simp only
    split
    · rename_i hcons
      rw [hcons]
      exact ⟨rfl, longest_stars _⟩
    · rename_i d r hstars heq
      obtain ⟨rfl, rfl⟩ := List.cons.inj heq
      split
      · rename_i hname
        have hdigit : c.isDigit = false := by
          cases hd : c.isDigit with
          | false => rfl
          | true => exact absurd hnumber (readNumeral?_ne_none hd s)
        obtain ⟨x, hx, hsplit⟩ := exists_name (first_of_isNameChar hname hdigit) s
        rw [← hx]
        exact ⟨hsplit, longest_name x (stopsAt_dropWhile _ _)⟩
      · rename_i hname
        exact ⟨rfl, longest_single hc (Bool.eq_false_iff.mpr hname) hnumber
          fun u hu => hstars u (List.cons.inj hu).1 (List.cons.inj hu).2⟩
    · cases ‹c :: s = []›

/-- The first `n` tokens of a text. -/
def tokensWithin : Nat → List Char → List (List Char)
  | 0, _ => []
  | n + 1, s => match dropBlank s with
    | [] => []
    | c :: r => (splitToken (c :: r)).1 :: tokensWithin n (splitToken (c :: r)).2

/-- The tokens of a text, of which there are no more than it has characters. -/
def tokens (s : List Char) : List (List Char) := tokensWithin s.length s

theorem tokens_tokensWithin {n : Nat} : ∀ {s : List Char}, s.length ≤ n →
    Tokens s (tokensWithin n s) := by
  induction n with
  | zero =>
    intro s hs
    rw [List.length_eq_zero_iff.mp (Nat.le_zero.mp hs)]
    exact .of_dropBlank_eq_nil rfl
  | succ n ih =>
    intro s hs
    rw [tokensWithin]
    split
    · exact .of_dropBlank_eq_nil ‹_›
    · rename_i c r hfront
      have hblank : isBlank c = false := stopsAt_dropWhile isBlank s c (congrArg List.head? hfront)
      obtain ⟨hsplit, hlongest⟩ := longest_splitToken hblank r
      refine .of_dropBlank (hfront.trans hsplit.symm) hlongest (ih ?_)
      have hlen := congrArg List.length hsplit
      have hpos := hlongest.isToken.length_pos
      have hle := Text.length_dropBlank_le s
      rw [hfront] at hle
      rw [List.length_append] at hlen
      omega

/-- Every text is a sequence of tokens in exactly one way, the one that is computed. -/
theorem tokens_iff {s : List Char} {ts : List (List Char)} : Tokens s ts ↔ tokens s = ts := by
  have hcomputed : Tokens s (tokens s) := tokens_tokensWithin (Nat.le_refl _)
  constructor
  · exact hcomputed.unique
  · rintro rfl
    exact hcomputed

end FactorStudy.Grammar
