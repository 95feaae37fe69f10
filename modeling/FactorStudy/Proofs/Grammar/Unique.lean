import FactorStudy.Proofs.Grammar.Number
import FactorStudy.Proofs.Grammar.Seam

/-!
# A text has one derivation

Two phrases of one level, each followed by what may follow it, that make up the same text are the
same phrase, and what follows them is the same (`Distinct`). The proof goes level by level as the
text is written: the first part of a phrase is settled first, and then decides what can stand
behind it.
-/

namespace FactorStudy.Grammar

open Text (isBlank dropBlank)
open Expr.Parser (isNameChar Operator)

/-- A text splits in one way into a phrase and something that may follow it. -/
def Distinct {σ : Type} (S : Nonterminal σ) (F : List Char → Prop) : Prop :=
  ∀ ⦃d d' : σ⦄ ⦃r r' : List Char⦄, F r → F r' → S.text d ++ r = S.text d' ++ r' → d = d' ∧ r = r'

/-! ## Chains -/

section Chain

variable {σ : Type} {S : Nonterminal σ} {ops : List BinaryOp} {operator : Operator}
  {F G : List Char → Prop}

theorem symbol_stopsAt (op : BinaryOp) (t : List Char) :
    StopsAt isBlank (op.symbol.toList ++ t) := by
  cases op <;> exact stopsAt_cons (by decide)

theorem Level.symbol_inj (level : Level ops operator F G) {op op' : BinaryOp} (hop : op ∈ ops)
    (hop' : op' ∈ ops) {t t' : List Char} (ht : t.head? ≠ some '*') (ht' : t'.head? ≠ some '*')
    (h : op.symbol.toList ++ t = op'.symbol.toList ++ t') : op = op' ∧ t = t' := by
  obtain ⟨_, hfound⟩ := level.found hop ht
  obtain ⟨_, hfound'⟩ := level.found hop' ht'
  have heq : (operator (op.symbol.toList ++ t)).map (fun x => (x.1, x.2.1)) =
      (operator (op'.symbol.toList ++ t')).map (fun x => (x.1, x.2.1)) := by rw [h]
  rw [hfound, hfound'] at heq
  cases heq
  exact ⟨rfl, rfl⟩

theorem links_inj (level : Level ops operator F G) (hS : Starts S) (hinj : Distinct S F)
    {r r' : List Char} (hr : G r) (hr' : G r') :
    ∀ (links links' : List (Link ops σ)),
      links.flatMap (Chain.linkText S) ++ r = links'.flatMap (Chain.linkText S) ++ r' →
      links = links' ∧ r = r' := by
  intro links
  induction links with
  | nil =>
    intro links' h
    cases links' with
    | nil => exact ⟨rfl, h⟩
    | cons k' links' =>
      -- the other chain goes on where this one has ended
      rw [List.flatMap_cons, Chain.linkText] at h
      simp only [List.append_assoc, List.flatMap_nil, List.nil_append] at h
      exact absurd h (level.ne_link hr k'.op_mem (hS.head_ne k'.operand _) k'.gap)
  | cons k links ih =>
    intro links' h
    cases links' with
    | nil =>
      rw [List.flatMap_cons, Chain.linkText] at h
      simp only [List.append_assoc, List.flatMap_nil, List.nil_append] at h
      exact absurd h.symm (level.ne_link hr' k.op_mem (hS.head_ne k.operand _) k.gap)
    | cons k' links' =>
      -- from left to right: the blanks, the operator, the operand, and the other links
      simp only [List.flatMap_cons, Chain.linkText, List.append_assoc] at h
      obtain ⟨hgap, h⟩ := gap_inj (symbol_stopsAt _ _) (symbol_stopsAt _ _) h
      obtain ⟨hop, h⟩ := level.symbol_inj k.op_mem k'.op_mem (hS.head_ne _ _) (hS.head_ne _ _) h
      obtain ⟨hoperand, h⟩ := hinj (level.follows hS hr links) (level.follows hS hr' links') h
      obtain ⟨hlinks, h⟩ := ih links' h
      refine ⟨?_, h⟩
      cases k
      cases k'
      simp only at hgap hop hoperand
      subst hgap hop hoperand hlinks
      rfl

theorem chain_distinct (level : Level ops operator F G) (hS : Starts S) (hinj : Distinct S F) :
    Distinct (Chain.nonterminal ops S) G := by
  intro d d' r r' hr hr' h
  obtain ⟨first, links⟩ := d
  obtain ⟨first', links'⟩ := d'
  have htext : ∀ (first : σ) (links : List (Link ops σ)) (r : List Char),
      (Chain.nonterminal ops S).text ⟨first, links⟩ ++ r =
        S.text first ++ (links.flatMap (Chain.linkText S) ++ r) :=
    fun _ _ _ => List.append_assoc _ _ _
  rw [htext, htext] at h
  obtain ⟨rfl, hlinks⟩ := hinj (level.follows hS hr links) (level.follows hS hr' links') h
  obtain ⟨rfl, hrest⟩ := links_inj level hS hinj hr hr' links links' hlinks
  exact ⟨rfl, hrest⟩

end Chain

/-! ## Primaries -/

section Levels

theorem paren_stopsAt (r : List Char) : StopsAt isBlank (')' :: r) := stopsAt_cons (by decide)

theorem comma_stopsAt (r : List Char) : StopsAt isBlank (',' :: r) := stopsAt_cons (by decide)

theorem name_inj {x x' : Name} {r r' : List Char} (hr : StopsAt isWordChar r)
    (hr' : StopsAt isWordChar r') (h : x.text ++ r = x'.text ++ r') : x = x' ∧ r = r' := by
  have hchars : ∀ (x : Name), ∀ c ∈ x.text, isNameChar c = true := fun x =>
    List.forall_mem_cons.mpr ⟨isNameChar_of_first x.first_mem, x.rest_mem⟩
  obtain ⟨htext, hrest⟩ := append_inj_of_stopsAt (hchars x) (hchars x')
    (hr.mono fun _ => isWordChar_of_isNameChar) (hr'.mono fun _ => isWordChar_of_isNameChar) h
  obtain ⟨hfirst, htail⟩ := List.cons.inj htext
  exact ⟨Name.ext hfirst htail, hrest⟩

section Arguments

variable {τ : Type} {T : Nonterminal τ}

theorem follows_moreText (more : List (MoreArgument τ)) (close : Gap) (r : List Char) :
    Follows afterSum (more.flatMap (Arguments.moreText T) ++ (close.chars ++ ')' :: r)) := by
  cases more with
  | nil => exact follows_gap close (by decide) (by decide) r
  | cons m more =>
    rw [List.flatMap_cons, Arguments.moreText]
    simp only [List.append_assoc, List.cons_append]
    exact follows_gap m.gap (by decide) (by decide) _

theorem more_inj (hinj : Distinct T (Follows afterSum)) {close close' : Gap} {r r' : List Char} :
    ∀ (more more' : List (MoreArgument τ)),
      more.flatMap (Arguments.moreText T) ++ (close.chars ++ ')' :: r) =
        more'.flatMap (Arguments.moreText T) ++ (close'.chars ++ ')' :: r') →
      more = more' ∧ close = close' ∧ r = r' := by
  intro more
  induction more with
  | nil =>
    intro more' h
    cases more' with
    | nil =>
      obtain ⟨hclose, h⟩ := gap_inj (paren_stopsAt _) (paren_stopsAt _) h
      exact ⟨rfl, hclose, (List.cons.inj h).2⟩
    | cons m' more' =>
      -- a closing parenthesis is not a comma
      simp only [List.flatMap_nil, List.flatMap_cons, Arguments.moreText, List.append_assoc,
        List.cons_append, List.nil_append] at h
      obtain ⟨-, h⟩ := gap_inj (paren_stopsAt _) (comma_stopsAt _) h
      exact absurd (List.cons.inj h).1 (by decide)
  | cons m more ih =>
    intro more' h
    cases more' with
    | nil =>
      simp only [List.flatMap_nil, List.flatMap_cons, Arguments.moreText, List.append_assoc,
        List.cons_append, List.nil_append] at h
      obtain ⟨-, h⟩ := gap_inj (comma_stopsAt _) (paren_stopsAt _) h
      exact absurd (List.cons.inj h).1 (by decide)
    | cons m' more' =>
      simp only [List.flatMap_cons, Arguments.moreText, List.append_assoc, List.cons_append] at h
      obtain ⟨hgap, h⟩ := gap_inj (comma_stopsAt _) (comma_stopsAt _) h
      obtain ⟨hargument, h⟩ :=
        hinj (follows_moreText more close r) (follows_moreText more' close' r') (List.cons.inj h).2
      obtain ⟨hmore, hclose, h⟩ := ih more' h
      refine ⟨?_, hclose, h⟩
      cases m
      cases m'
      simp only at hgap hargument
      subst hgap hargument hmore
      rfl

theorem arguments_inj (hT : Starts T) (hinj : Distinct T (Follows afterSum))
    {a a' : Arguments τ} {r r' : List Char} (h : a.text T ++ r = a'.text T ++ r') :
    a = a' ∧ r = r' := by
  -- an argument does not begin with a closing parenthesis
  have hnone : ∀ (close close' : Gap) (first : τ) (more : List (MoreArgument τ)) (r r' : List Char),
      (Arguments.none close : Arguments τ).text T ++ r ≠
        (Arguments.some first more close').text T ++ r' := by
    intro close close' first more r r' h
    simp only [Arguments.text, List.append_assoc, List.cons_append, List.nil_append] at h
    have hfront := congrArg dropBlank h
    rw [dropBlank_gap, dropBlank_cons (by decide)] at hfront
    exact hT.dropBlank_ne (by decide) (by decide) (by decide) first _ r hfront.symm
  cases a with
  | none close =>
    cases a' with
    | none close' =>
      simp only [Arguments.text, List.append_assoc, List.cons_append, List.nil_append] at h
      obtain ⟨rfl, hrest⟩ := gap_inj (paren_stopsAt _) (paren_stopsAt _) h
      exact ⟨rfl, (List.cons.inj hrest).2⟩
    | some first' more' close' => exact absurd h (hnone _ _ _ _ _ _)
  | some first more close =>
    cases a' with
    | none close' => exact absurd h.symm (hnone _ _ _ _ _ _)
    | some first' more' close' =>
      simp only [Arguments.text, List.append_assoc, List.cons_append, List.nil_append] at h
      obtain ⟨rfl, hmore⟩ :=
        hinj (follows_moreText more close r) (follows_moreText more' close' r') h
      obtain ⟨rfl, rfl, hrest⟩ := more_inj hinj more more' hmore
      exact ⟨rfl, hrest⟩

end Arguments

variable {σ : Type} {S : Nonterminal σ}

theorem sums_distinct (hS : Starts S) (hinj : Distinct S FollowsPower) :
    Distinct (sums S) (Follows afterSum) :=
  chain_distinct sumLevel (starts_chain hS) (chain_distinct productLevel hS hinj)

/-- The parenthesis of a call is not what follows a column. -/
theorem call_ne_column {x x' : Name} {gap : Gap} {t r' : List Char}
    (hr' : Follows afterPrimary r') : x.text ++ (gap.chars ++ '(' :: t) ≠ x'.text ++ r' := by
  intro h
  obtain ⟨-, rfl⟩ := name_inj (stopsAt_word_gap gap (stopsAt_cons (by decide))) hr'.stopsAt_word h
  have hmem := hr' _ (by rw [dropBlank_gap, dropBlank_cons (by decide)]; exact List.head?_cons)
  exact absurd hmem (by decide)

theorem primary_distinct (hS : Starts S) (hinj : Distinct S FollowsPower) :
    Distinct (Primary.nonterminal S) (Follows afterPrimary) := by
  intro p p' r r' hr hr' h
  -- the first character tells the four kinds apart, but for calls and columns
  have hfirst : ∃ c, p.Begins c ∧ p'.Begins c := by
    obtain ⟨c, s, htext, hc⟩ := p.exists_begins S
    obtain ⟨c', s', htext', hc'⟩ := p'.exists_begins S
    have hcons : c :: (s ++ r) = c' :: (s' ++ r') := by
      rw [← List.cons_append, ← List.cons_append, ← htext, ← htext']
      exact h
    obtain rfl : c = c' := (List.cons.inj hcons).1
    exact ⟨c, hc, hc'⟩
  obtain ⟨c, hc, hc'⟩ := hfirst
  have hgroup : ∀ {c : Char}, c = '(' → ¬ (c.isDigit = true ∨ c = '.') ∧
      ¬ (c.isAlpha = true ∨ c = '_') := by
    rintro c rfl
    decide
  replace h : p.text S ++ r = p'.text S ++ r' := h
  cases p with
  | number t =>
    cases p' with
    | number t' =>
      obtain ⟨rfl, hrest⟩ := NumberToken.text_inj hr.stopsAt_word hr'.stopsAt_word h
      exact ⟨rfl, hrest⟩
    | group d' close' => exact absurd hc (hgroup hc').1
    | call x' gap' a' => exact absurd hc (ne_number_of_first hc')
    | column x' => exact absurd hc (ne_number_of_first hc')
  | group d close =>
    cases p' with
    | number t' => exact absurd hc' (hgroup hc).1
    | group d' close' =>
      rw [group_text, group_text] at h
      obtain ⟨rfl, hclose⟩ := sums_distinct hS hinj (follows_gap close (by decide) (by decide) r)
        (follows_gap close' (by decide) (by decide) r') (List.cons.inj h).2
      obtain ⟨rfl, hrest⟩ := gap_inj (paren_stopsAt _) (paren_stopsAt _) hclose
      exact ⟨rfl, (List.cons.inj hrest).2⟩
    | call x' gap' a' => exact absurd hc' (hgroup hc).2
    | column x' => exact absurd hc' (hgroup hc).2
  | call x gap a =>
    cases p' with
    | number t' => exact absurd hc' (ne_number_of_first hc)
    | group d' close' => exact absurd hc (hgroup hc').2
    | call x' gap' a' =>
      rw [call_text, call_text] at h
      obtain ⟨rfl, hgap⟩ := name_inj (stopsAt_word_gap gap (stopsAt_cons (by decide)))
        (stopsAt_word_gap gap' (stopsAt_cons (by decide))) h
      obtain ⟨rfl, hparen⟩ := gap_inj (stopsAt_cons (by decide)) (stopsAt_cons (by decide)) hgap
      obtain ⟨rfl, hrest⟩ := arguments_inj (starts_sums hS) (sums_distinct hS hinj)
        (List.cons.inj hparen).2
      exact ⟨rfl, hrest⟩
    | column x' =>
      rw [call_text] at h
      exact absurd h (call_ne_column hr')
  | column x =>
    cases p' with
    | number t' => exact absurd hc' (ne_number_of_first hc)
    | group d' close' => exact absurd hc (hgroup hc').2
    | call x' gap' a' =>
      rw [call_text] at h
      exact absurd h.symm (call_ne_column hr)
    | column x' =>
      obtain ⟨rfl, hrest⟩ := name_inj hr.stopsAt_word hr'.stopsAt_word h
      exact ⟨rfl, hrest⟩

/-! ## Powers and signed terms -/

/-- Two stars are not what follows a power. -/
theorem FollowsPower.ne_stars {r : List Char} (hr : FollowsPower r) (gap : Gap) (t : List Char) :
    r ≠ gap.chars ++ '*' :: '*' :: t := by
  rintro rfl
  exact hr.2 t (by rw [dropBlank_gap, dropBlank_cons (by decide)])

theorem power_distinct (hS : Starts S) (hinj : Distinct S FollowsPower) :
    Distinct (Power.nonterminal S) FollowsPower := by
  intro p p' r r' hr hr' h
  replace h : p.text S ++ r = p'.text S ++ r' := h
  have hbase : Distinct (Primary.nonterminal S) (Follows afterPrimary) := primary_distinct hS hinj
  -- a power follows its base with two stars, which nothing else may stand in front of
  cases p with
  | plain base =>
    cases p' with
    | plain base' =>
      obtain ⟨rfl, hrest⟩ := hbase hr.1 hr'.1 h
      exact ⟨rfl, hrest⟩
    | raised base' gap' exponent' =>
      rw [raised_text] at h
      exact absurd (hbase hr.1 (follows_stars _ _) h).2 (hr.ne_stars _ _)
  | raised base gap exponent =>
    rw [raised_text] at h
    cases p' with
    | plain base' => exact absurd (hbase (follows_stars _ _) hr'.1 h).2.symm (hr'.ne_stars _ _)
    | raised base' gap' exponent' =>
      rw [raised_text] at h
      obtain ⟨rfl, hgap⟩ := hbase (follows_stars _ _) (follows_stars _ _) h
      obtain ⟨rfl, hstars⟩ := gap_inj (stopsAt_cons (by decide)) (stopsAt_cons (by decide)) hgap
      obtain ⟨rfl, hrest⟩ := hinj hr hr' (List.cons.inj (List.cons.inj hstars).2).2
      exact ⟨rfl, hrest⟩

theorem Power.stopsAt_text (p : Power σ) (r : List Char) : StopsAt isBlank (p.text S ++ r) := by
  obtain ⟨c, s, htext, hc⟩ := p.exists_cons S
  rw [htext]
  exact stopsAt_cons hc.isBlank_eq_false

/-- A power does not begin with a minus, with or without blanks. -/
theorem minus_ne_plain (g g' : Gap) (p : Power σ) (t r : List Char) :
    g.chars ++ '-' :: t ≠ g'.chars ++ (p.text S ++ r) := by
  intro h
  obtain ⟨c, s, htext, hc⟩ := p.exists_cons S
  obtain ⟨-, hfront⟩ := gap_inj (stopsAt_cons (by decide)) (p.stopsAt_text r) h
  rw [htext] at hfront
  exact hc.ne (by decide) (by decide) (List.cons.inj hfront).1.symm

theorem signedTerm_distinct (hS : Starts S) (hinj : Distinct S FollowsPower) :
    Distinct (SignedTerm.nonterminal S) FollowsPower := by
  intro d d' r r' hr hr' h
  replace h : d.text S ++ r = d'.text S ++ r' := h
  -- no power begins with a minus, so the first character tells the two apart
  cases d with
  | minus g d =>
    rw [minus_text] at h
    cases d' with
    | minus g' d' =>
      rw [minus_text] at h
      obtain ⟨rfl, hminus⟩ := gap_inj (stopsAt_cons (by decide)) (stopsAt_cons (by decide)) h
      obtain ⟨rfl, hrest⟩ := hinj hr hr' (List.cons.inj hminus).2
      exact ⟨rfl, hrest⟩
    | plain g' p' =>
      rw [plain_text] at h
      exact absurd h (minus_ne_plain g g' p' _ r')
  | plain g p =>
    rw [plain_text] at h
    cases d' with
    | minus g' d' =>
      rw [minus_text] at h
      exact absurd h.symm (minus_ne_plain g' g p _ r)
    | plain g' p' =>
      rw [plain_text] at h
      obtain ⟨rfl, hpower⟩ := gap_inj (p.stopsAt_text r) (p'.stopsAt_text r') h
      obtain ⟨rfl, hrest⟩ := power_distinct hS hinj hr hr' hpower
      exact ⟨rfl, hrest⟩

end Levels

/-- Signed terms are settled by what is written; the induction is on the nesting. -/
theorem signed_distinct (n : Nat) : Distinct (signedTerms n) FollowsPower := by
  induction n with
  | zero => exact fun d => d.elim
  | succ n ih => exact signedTerm_distinct (starts_signedTerms n) ih

/-- A text has at most one derivation. -/
theorem Derivation.text_inj {n : Nat} {d d' : Derivation n} (h : d.text = d'.text) : d = d' := by
  obtain ⟨body, trailing⟩ := d
  obtain ⟨body', trailing'⟩ := d'
  obtain ⟨rfl, htrailing⟩ := sums_distinct (starts_signedTerms n) (signed_distinct n)
    (trailing.follows afterSum) (trailing'.follows afterSum) h
  obtain rfl := Gap.ext htrailing
  rfl

end FactorStudy.Grammar
