import FactorStudy.Proofs.Grammar.Printed

/-!
# Normalized text

The trees of texts are among those that the printer can show, so the printed form of an accepted
text is read with the tree of that text or not at all (`parse_render_eq_ok_iff`). It is not read in
two cases: the text holds a number beyond the range of doubles, which is printed as a word, or the
parentheses of the printer nest more deeply than the text did and exceed the limit.
-/

namespace FactorStudy.Grammar

open FactorStudy.Expr (maxDepth parse allWellFormed)

/-! ## The trees of texts -/

/-- The phrases denote trees that a text can have. -/
def Denotes {σ : Type} (S : Nonterminal σ) : Prop :=
  ∀ {d e}, S.tree d = some e → e.wellFormed = true

section Levels

variable {σ : Type} {S : Nonterminal σ}

theorem chain_denotes {ops : List BinaryOp} (hS : Denotes S) :
    Denotes (Chain.nonterminal ops S) := by
  have hlinks : ∀ (links : List (Link ops σ)) {left e : Expr}, left.wellFormed = true →
      links.foldlM (Chain.extend S) left = some e → e.wellFormed = true := by
    intro links
    -- the tree grows to the left, so the induction is over the links with the tree so far
    induction links with
    | nil =>
      intro left e hleft h
      cases h
      exact hleft
    | cons k links ih =>
      intro left e hleft h
      rw [List.foldlM_cons] at h
      obtain ⟨e', he', h⟩ := Option.bind_eq_some_iff.mp h
      obtain ⟨right, hright, rfl⟩ := Chain.exists_of_extend he'
      refine ih ?_ h
      rw [Expr.wellFormed, hleft, hS hright]
      rfl
  intro d e h
  obtain ⟨first, hfirst, h⟩ := Option.bind_eq_some_iff.mp h
  exact hlinks d.links (hS hfirst) h

theorem sums_denotes (hS : Denotes S) : Denotes (sums S) := chain_denotes (chain_denotes hS)

theorem arguments_denote {τ : Type} {T : Nonterminal τ} (hT : Denotes T) (ds : List τ) :
    ∀ {es : List Expr}, ds.mapM T.tree = some es → allWellFormed es = true := by
  induction ds with
  | nil =>
    intro es h
    cases h
    rfl
  | cons d ds ih =>
    intro es h
    obtain ⟨e, es', he, hes, rfl⟩ := exists_of_mapM_cons h
    rw [allWellFormed, hT he, ih hes]
    rfl

theorem primary_denotes (hS : Denotes S) : Denotes (Primary.nonterminal S) := by
  intro p e h
  cases p with
  | number token =>
    cases h
    rfl
  | group inner close => exact sums_denotes hS h
  | call name gap arguments =>
    obtain ⟨f, -, h⟩ := Option.bind_eq_some_iff.mp h
    obtain ⟨args, hargs, h⟩ := Option.bind_eq_some_iff.mp h
    obtain rfl := eq_call_of_callOf h
    unfold Arguments.callOf at h
    split at h
    · rename_i hcall
      exact wellFormed_call.mpr ⟨hcall, arguments_denote (sums_denotes hS) _ hargs⟩
    · cases h
  | column name =>
    obtain ⟨c, -, rfl⟩ := Option.map_eq_some_iff.mp h
    rfl

theorem power_denotes (hS : Denotes S) : Denotes (Power.nonterminal S) := by
  intro p e h
  cases p with
  | plain base => exact primary_denotes hS h
  | raised base gap exponent =>
    obtain ⟨b, hb, h⟩ := Option.bind_eq_some_iff.mp h
    obtain ⟨e', he', h⟩ := Option.bind_eq_some_iff.mp h
    cases h
    rw [Expr.wellFormed, primary_denotes hS hb, hS he']
    rfl

/-- A minus over a literal becomes part of it, so none stays over a literal. -/
theorem wellFormed_negated {e : Expr} (he : e.wellFormed = true) :
    (negated e).wellFormed = true := by
  cases e with
  | literal v => rfl
  | _ => exact he

theorem signedTerm_denotes (hS : Denotes S) : Denotes (SignedTerm.nonterminal S) := by
  intro d e h
  cases d with
  | minus gap operand =>
    obtain ⟨e', he', rfl⟩ := Option.map_eq_some_iff.mp h
    exact wellFormed_negated (hS he')
  | plain gap power => exact power_denotes hS h

end Levels

theorem signed_denotes (n : Nat) : Denotes (signedTerms n) := by
  induction n with
  | zero => exact fun {d} => d.elim
  | succ n ih => exact signedTerm_denotes ih

theorem wellFormed_of_parse {s : String} {e : Expr} (h : parse s = .ok e) :
    e.wellFormed = true := by
  obtain ⟨d, -, htree⟩ := whole_sound 0 (parse_eq_ok_iff.mp h)
  exact sums_denotes (signed_denotes _) htree

/-! ## Reading normalized text -/

/-- **Normalized text.** The printed form of an accepted text is accepted exactly when all its
numbers are finite and its own nesting keeps the limit, and then it has the same tree.

Neither condition comes with being accepted: a literal beyond the range of doubles is printed as a
word, and the parentheses that a printed form has around every operator count as nesting. Where one
of them fails, the printed form is turned down and not read as another tree. -/
theorem parse_render_eq_ok_iff {s : String} {e : Expr} (h : parse s = .ok e) (e' : Expr) :
    parse e.render = .ok e' ↔ e' = e ∧ e.isFinite = true ∧ e.printedNesting ≤ maxDepth := by
  have houtcome := outcome_parse_render (wellFormed_of_parse h)
  constructor
  · intro hp
    rw [hp] at houtcome
    exact houtcome
  · rintro ⟨rfl, hfinite, hfits⟩
    cases hp : parse e'.render with
    | ok e =>
      rw [hp] at houtcome
      rw [houtcome.1]
    | error err =>
      rw [hp] at houtcome
      exact absurd hfits (Nat.not_le_of_lt (houtcome hfinite).2)

/-- A number beyond the range of doubles. -/
def hugeNumber : NumberToken where
  whole := ['1']
  fraction := none
  exponent := some {
    letter := 'e'
    sign := []
    digits := ['9', '9', '9']
    letter_mem := Or.inl rfl
    sign_mem := Or.inl rfl
    digits_digit := List.all_eq_true.mp rfl
    digits_ne := List.cons_ne_nil _ _ }
  whole_digit := List.all_eq_true.mp rfl
  fraction_digit := List.all_eq_true.mp rfl
  digit := Or.inl (List.cons_ne_nil _ _)

theorem parse_hugeNumber : parse "1e999" = .ok (.literal (1 / 0)) :=
  parse_of_derivation (n := 1) ⟨Primary.argument Gap.nil (.number hugeNumber), Gap.nil⟩
    rfl rfl (by decide) (by decide)

/-- Its normalized text is a word, which is not read. -/
theorem parse_render_hugeNumber :
    parse "1e999" = .ok (.literal (1 / 0)) ∧ (Expr.literal (1 / 0)).render = "inf" ∧
      ∀ e', parse "inf" ≠ .ok e' := by
  have hrender : (Expr.literal (1 / 0)).render = "inf" := by decide +kernel
  refine ⟨parse_hugeNumber, hrender, fun e' h => ?_⟩
  rw [← hrender] at h
  have hfinite := ((parse_render_eq_ok_iff parse_hugeNumber e').mp h).2.1
  exact absurd hfinite (by decide +kernel)

end FactorStudy.Grammar
