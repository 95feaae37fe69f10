import FactorStudy.Proofs.Grammar.Token

/-!
# Seams between phrases

Whether a reader stops where a phrase ends depends on what comes next. The lemmas here say what
does come next at each place of the grammar: how phrases begin, and that an operator or a closing
parenthesis is something the phrase before it may be followed by.
-/

namespace FactorStudy.Grammar

open Text (isBlank dropBlank)
open Expr.Parser (isNameChar sumOperator productOperator Operator)

/-! ## How phrases begin -/

/-- The characters a primary begins with. -/
def Opens (c : Char) : Prop := isWordChar c = true ∨ c = '('

theorem Opens.isBlank_eq_false {c : Char} (h : Opens c) : isBlank c = false := by
  rcases h with h | rfl
  · exact isBlank_eq_false_of_isWordChar h
  · decide

theorem Opens.ne {c d : Char} (h : Opens c) (hd : isWordChar d = false) (hparen : d ≠ '(') :
    c ≠ d := by
  rintro rfl
  rcases h with h | h
  · rw [hd] at h; cases h
  · exact hparen h

theorem NumberToken.exists_cons (t : NumberToken) :
    ∃ c s, t.text = c :: s ∧ (c.isDigit = true ∨ c = '.') := by
  unfold text
  cases hw : t.whole with
  | cons c s =>
    exact ⟨c, _, rfl, Or.inl (t.whole_digit c (by rw [hw]; exact List.mem_cons_self))⟩
  | nil =>
    cases hf : t.fraction with
    | some digits => exact ⟨'.', _, rfl, Or.inr rfl⟩
    | none =>
      rcases t.digit with h | h
      · exact absurd hw h
      · rw [hf] at h
        exact absurd rfl h

section

variable {σ : Type} {S : Nonterminal σ}

/-- What the first character tells of a primary: a number, a group, or a call or column. -/
def Primary.Begins : Primary σ → Char → Prop
  | .number _, c => c.isDigit = true ∨ c = '.'
  | .group .., c => c = '('
  | .call .., c | .column _, c => c.isAlpha = true ∨ c = '_'

theorem Primary.exists_begins (S : Nonterminal σ) (p : Primary σ) :
    ∃ c s, p.text S = c :: s ∧ p.Begins c := by
  cases p with
  | number token => exact token.exists_cons
  | group inner close => exact ⟨'(', _, rfl, rfl⟩
  | call name gap arguments => exact ⟨name.first, _, rfl, name.first_mem⟩
  | column name => exact ⟨name.first, _, rfl, name.first_mem⟩

theorem Primary.Begins.opens {p : Primary σ} {c : Char} (h : p.Begins c) : Opens c := by
  cases p with
  | number token =>
    rcases h with h | rfl
    · exact Or.inl (isWordChar_of_isDigit h)
    · exact Or.inl (by decide)
  | group inner close => exact Or.inr h
  | call name gap arguments => exact Or.inl (isWordChar_of_isNameChar (isNameChar_of_first h))
  | column name => exact Or.inl (isWordChar_of_isNameChar (isNameChar_of_first h))

theorem Primary.exists_cons (S : Nonterminal σ) (p : Primary σ) :
    ∃ c s, p.text S = c :: s ∧ Opens c := by
  obtain ⟨c, s, htext, hc⟩ := p.exists_begins S
  exact ⟨c, s, htext, hc.opens⟩

theorem Power.exists_cons (S : Nonterminal σ) (p : Power σ) :
    ∃ c s, p.text S = c :: s ∧ Opens c := by
  cases p with
  | plain base => exact base.exists_cons S
  | raised base gap exponent =>
    obtain ⟨c, s, htext, hc⟩ := base.exists_cons S
    exact ⟨c, _, by rw [Power.text, htext]; rfl, hc⟩

/-- Past blanks, every phrase begins as a primary does or with a minus. -/
def Starts (S : Nonterminal σ) : Prop :=
  ∀ d, ∃ (g : Gap) (c : Char) (s : List Char), S.text d = g.chars ++ c :: s ∧ (Opens c ∨ c = '-')

theorem starts_chain {ops : List BinaryOp} (hS : Starts S) : Starts (Chain.nonterminal ops S) := by
  intro d
  obtain ⟨g, c, s, htext, hc⟩ := hS d.first
  refine ⟨g, c, s ++ d.links.flatMap (Chain.linkText S), ?_, hc⟩
  show S.text d.first ++ d.links.flatMap (Chain.linkText S) = _
  rw [htext, List.append_assoc, List.cons_append]

theorem starts_sums (hS : Starts S) : Starts (sums S) := starts_chain (starts_chain hS)

/-- What a phrase begins with past its blanks is none of the other signs. -/
theorem Starts.dropBlank_ne (hS : Starts S) {x : Char} (hword : isWordChar x = false)
    (hparen : x ≠ '(') (hminus : x ≠ '-') (d : σ) (r u : List Char) :
    dropBlank (S.text d ++ r) ≠ x :: u := by
  obtain ⟨g, c, s, htext, hc⟩ := hS d
  have hblank : isBlank c = false := by
    rcases hc with hc | rfl
    · exact hc.isBlank_eq_false
    · decide
  rw [htext, List.append_assoc, dropBlank_gap, List.cons_append, dropBlank_cons hblank]
  intro h
  obtain rfl : c = x := (List.cons.inj h).1
  rcases hc with hc | hc
  · exact hc.ne hword hparen rfl
  · exact hminus hc

/-- A phrase does not begin with a star: two stars are never a star and a phrase. -/
theorem Starts.head_ne (hS : Starts S) (d : σ) (r : List Char) :
    (S.text d ++ r).head? ≠ some '*' := by
  intro h
  obtain ⟨s, hs⟩ := List.head?_eq_some_iff.mp h
  refine hS.dropBlank_ne (x := '*') (by decide) (by decide) (by decide) d r s ?_
  rw [hs, dropBlank_cons (by decide)]

end

theorem starts_signedTerms (n : Nat) : Starts (signedTerms n) := by
  cases n with
  | zero => exact fun d => d.elim
  | succ n =>
    intro d
    cases d with
    | minus gap operand => exact ⟨gap, '-', _, rfl, Or.inr rfl⟩
    | plain gap power =>
      obtain ⟨c, s, htext, hc⟩ := power.exists_cons (signedTerms n)
      exact ⟨gap, c, s, congrArg (gap.chars ++ ·) htext, Or.inl hc⟩

/-! ## Phrases before a rest -/

section

variable {σ : Type} {S : Nonterminal σ}

theorem group_text (d : Sum σ) (close : Gap) (r : List Char) :
    (Primary.group d close).text S ++ r = '(' :: ((sums S).text d ++ (close.chars ++ ')' :: r)) := by
  simp only [Primary.text, List.cons_append, List.append_assoc, List.nil_append]

theorem call_text (x : Name) (gap : Gap) (a : Arguments (Sum σ)) (r : List Char) :
    (Primary.call x gap a).text S ++ r = x.text ++ (gap.chars ++ '(' :: (a.text (sums S) ++ r)) := by
  simp only [Primary.text, List.append_assoc, List.cons_append]

theorem raised_text (base : Primary σ) (gap : Gap) (exponent : σ) (r : List Char) :
    (Power.raised base gap exponent).text S ++ r =
      base.text S ++ (gap.chars ++ '*' :: '*' :: (S.text exponent ++ r)) := by
  simp only [Power.text, List.append_assoc, List.cons_append]

theorem follows_stars (gap : Gap) (t : List Char) :
    Follows afterPrimary (gap.chars ++ '*' :: '*' :: t) :=
  follows_gap gap (by decide) (by decide) _

theorem minus_text (g : Gap) (d : σ) (r : List Char) :
    (SignedTerm.minus g d).text S ++ r = g.chars ++ '-' :: (S.text d ++ r) := List.append_assoc _ _ _

theorem plain_text (g : Gap) (p : Power σ) (r : List Char) :
    (SignedTerm.plain g p).text S ++ r = g.chars ++ (p.text S ++ r) := List.append_assoc _ _ _

end

/-! ## Operators -/

theorem dropBlank_symbol (op : BinaryOp) (t : List Char) :
    dropBlank (op.symbol.toList ++ t) = op.symbol.toList ++ t := by
  cases op <;> exact dropBlank_cons (by decide) _

/-- What one level of operators asks of its surroundings: `F` may follow an operand and `G` a whole
chain. An operand is known not to begin with a star. -/
structure Level (ops : List BinaryOp) (operator : Operator) (F G : List Char → Prop) : Prop where
  /-- What may follow a chain may follow its last operand. -/
  last : ∀ {r}, G r → F r
  /-- An operator may follow an operand. -/
  joint : ∀ {op t}, op ∈ ops → t.head? ≠ some '*' → ∀ g : Gap,
    F (g.chars ++ (op.symbol.toList ++ t))
  /-- The operators are found where they stand. -/
  found : ∀ {op t}, op ∈ ops → t.head? ≠ some '*' →
    ∃ h, operator (op.symbol.toList ++ t) = some (op, ⟨t, h⟩)
  /-- None is found behind a chain. -/
  stops : ∀ {r}, G r → operator (dropBlank r) = none

/-- What follows a chain does not go on with an operator of its level. -/
theorem Level.ne_link {ops : List BinaryOp} {operator : Operator} {F G : List Char → Prop}
    (level : Level ops operator F G) {r t : List Char} (hr : G r) {op : BinaryOp} (hop : op ∈ ops)
    (ht : t.head? ≠ some '*') (g : Gap) : r ≠ g.chars ++ (op.symbol.toList ++ t) := by
  rintro rfl
  have hstop := level.stops hr
  obtain ⟨_, hfound⟩ := level.found hop ht
  rw [dropBlank_gap, dropBlank_symbol, hfound] at hstop
  cases hstop

/-- An operand is followed by the next operator, or by what follows the chain. -/
theorem Level.follows {σ : Type} {S : Nonterminal σ} {ops : List BinaryOp} {operator : Operator}
    {F G : List Char → Prop} (level : Level ops operator F G) (hS : Starts S) {r : List Char} (hr : G r)
    (links : List (Link ops σ)) : F (links.flatMap (Chain.linkText S) ++ r) := by
  cases links with
  | nil => exact level.last hr
  | cons k links =>
    rw [List.flatMap_cons, Chain.linkText]
    simp only [List.append_assoc]
    exact level.joint k.op_mem (hS.head_ne k.operand _) k.gap

theorem sumLevel : Level sumOps sumOperator (Follows afterProduct) (Follows afterSum) where
  last h := h.mono (by decide)
  joint := by
    intro op t hop _ g
    simp only [sumOps, List.mem_cons, List.not_mem_nil, or_false] at hop
    -- a plus and a minus, one after the other
    rcases hop with rfl | rfl
    · exact follows_gap g (by decide) (by decide) t
    · exact follows_gap g (by decide) (by decide) t
  found := by
    intro op t hop _
    simp only [sumOps, List.mem_cons, List.not_mem_nil, or_false] at hop
    rcases hop with rfl | rfl
    · exact ⟨_, rfl⟩
    · exact ⟨_, rfl⟩
  stops := by
    intro r hr
    unfold Follows at hr
    generalize dropBlank r = u at hr
    unfold sumOperator
    split
    · exact absurd (hr '+' rfl) (by decide)
    · exact absurd (hr '-' rfl) (by decide)
    · rfl

theorem productLevel : Level productOps productOperator FollowsPower (Follows afterProduct) where
  last := followsPower_of_product
  joint := by
    intro op t hop ht g
    simp only [productOps, List.mem_cons, List.not_mem_nil, or_false] at hop
    rcases hop with rfl | rfl
    · refine ⟨follows_gap g (by decide) (by decide) t, fun u hu => ht ?_⟩
      rw [dropBlank_gap, dropBlank_symbol] at hu
      have htail : t = '*' :: u := (List.cons.inj hu).2
      rw [htail]
      rfl
    · refine ⟨follows_gap g (by decide) (by decide) t, fun u hu => ?_⟩
      rw [dropBlank_gap, dropBlank_symbol] at hu
      exact absurd (List.cons.inj hu).1 (by decide)
  found := by
    intro op t hop ht
    simp only [productOps, List.mem_cons, List.not_mem_nil, or_false] at hop
    rcases hop with rfl | rfl
    · refine ⟨by simp [BinaryOp.symbol], ?_⟩
      show productOperator ('*' :: t) = _
      rw [productOperator]
      · rfl
      · -- two stars are not a product but a power
        rintro u rfl
        exact ht rfl
    · exact ⟨_, rfl⟩
  stops := by
    intro r hr
    unfold Follows at hr
    generalize dropBlank r = u at hr
    unfold productOperator
    split
    · rfl
    · exact absurd (hr '*' rfl) (by decide)
    · exact absurd (hr '/' rfl) (by decide)
    · rfl

end FactorStudy.Grammar
