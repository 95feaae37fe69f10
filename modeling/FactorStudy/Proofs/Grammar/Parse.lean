import FactorStudy.Proofs.Grammar.Complete
import FactorStudy.Proofs.Grammar.Unique

/-!
# A text is an expression when it derives from the grammar

The reader and the grammar agree: an expression is read from a text exactly when the text has a
derivation with that tree, within the two limits (`parse_eq_ok_iff_derivation`). Derivations are
taken up to any nesting, so that the limit on the nesting is a condition of the theorem and not of
the type; however deep they may be, a text has at most one.
-/

namespace FactorStudy.Grammar

open Text (dropBlank)
open FactorStudy.Expr (maxDepth parse)
open Expr.Parser

theorem signed_sums_sound (n : Nat) :
    Sound (sums (signedTerms (maxDepth + n)))
      (Expr.Parser.sum (Expr.Parser.signed maxDepth)) :=
  sum_sound (signed_sound maxDepth (maxDepth + n) (Nat.le_add_right _ _))

theorem parse_eq_ok_iff {s : String} {e : Expr} : parse s = .ok e ↔ whole s.toList = .ok e := by
  unfold parse
  cases whole s.toList with
  | ok e' =>
    constructor
    · intro h
      cases h
      rfl
    · intro h
      cases h
      rfl
  | error fault =>
    constructor
    · intro h
      cases h
    · intro h
      cases h

/-- The whole text is read when a sum is and nothing but blanks is left. -/
theorem whole_eq_bind (s : List Char) :
    whole s = (view (Expr.Parser.sum (Expr.Parser.signed maxDepth) s)).bind fun x =>
      match dropBlank x.2.2 with
      | [] => .ok x.1
      | rest => .error ⟨.unreadInput (String.ofList rest), rest⟩ := by
  show Except.bind (Expr.Parser.sum (Expr.Parser.signed maxDepth) s) _ = _
  cases Expr.Parser.sum (Expr.Parser.signed maxDepth) s <;> rfl

theorem whole_sound (n : Nat) {s : List Char} {e : Expr} (h : whole s = .ok e) :
    ∃ d : Derivation (maxDepth + n), d.text = s ∧ d.tree = some e := by
  rw [whole_eq_bind] at h
  obtain ⟨⟨e', height, r⟩, hsum, h⟩ := exists_of_bind_eq_ok h
  simp only at h
  split at h
  · rename_i hrest
    cases h
    obtain ⟨d, g, htext, htree⟩ := signed_sums_sound n hsum
    refine ⟨⟨d, g.append (gapOf r)⟩, ?_, htree⟩
    show (sums (signedTerms (maxDepth + n))).text d ++ (g.chars ++ (gapOf r).chars) = s
    rw [← List.append_nil (gapOf r).chars, gapOf_append_of_dropBlank hrest, htext]
  · cases h

/-- On a text with a derivation, the reader returns the tree of the derivation if there is one and
the limits are kept. Otherwise it fails, and if there is a tree then for too deep a nesting. -/
theorem whole_complete {n : Nat} (d : Derivation n) :
    Outcome (whole d.text)
      (fun e => d.tree = some e ∧ d.nesting ≤ maxDepth ∧ e.height ≤ maxDepth)
      (TooDeep d.tree (d.nesting ≤ maxDepth)) := by
  rw [whole_eq_bind]
  have hsum : Complete (sums (signedTerms n)) (Follows afterSum) maxDepth
      (Expr.Parser.sum (Expr.Parser.signed maxDepth)) :=
    sum_complete (starts_signedTerms n) (signed_complete n maxDepth)
  refine Outcome.bind (hsum d.body (d.trailing.follows afterSum)) (fun _ h => h) ?_
  -- after the sum only the trailing blanks are left
  rintro ⟨e, height, r⟩ ⟨htree, hfits, -, hlow, hrest⟩
  have hend : dropBlank r = [] := hrest.trans d.trailing.dropBlank_eq_nil
  simp only [hend]
  exact ⟨htree, hfits, hlow⟩

/-- The same of the parser, which adds the place of a fault. -/
theorem parse_complete {n : Nat} (d : Derivation n) {s : String} (hs : d.text = s.toList) :
    Outcome (parse s)
      (fun e => d.tree = some e ∧ d.nesting ≤ maxDepth ∧ e.height ≤ maxDepth)
      (fun err => ∀ e, d.tree = some e →
        err.cause = .nestedTooDeeply ∧ (d.nesting ≤ maxDepth → maxDepth < e.height)) := by
  have h := whole_complete d
  rw [hs] at h
  unfold parse
  cases hw : whole s.toList with
  | ok e => rw [hw] at h; exact h
  | error f => rw [hw] at h; exact fun e he => ⟨h.cause he, h.high he⟩

/-- Within the limits, the tree of a derivation is what is read. -/
theorem parse_of_derivation {n : Nat} (d : Derivation n) {s : String} {e : Expr}
    (hs : d.text = s.toList) (htree : d.tree = some e) (hfits : d.nesting ≤ maxDepth)
    (hlow : e.height ≤ maxDepth) : parse s = .ok e := by
  have houtcome := parse_complete d hs
  cases hp : parse s with
  | ok e' =>
    rw [hp] at houtcome
    rw [Option.some.inj (htree.symm.trans houtcome.1)]
  | error err =>
    rw [hp] at houtcome
    exact absurd ((houtcome e htree).2 hfits) (Nat.not_lt_of_le hlow)

/-- **Reading is deriving.** An expression is read from a text exactly when the text derives from
the grammar with that tree, at most `maxDepth` signed terms inside each other and a tree of at most
that height; and no text has two derivations.

Each reader is sound and complete for its own level of the grammar, given that the reader for the
level inside it is, so the induction is on how many signed terms may still be opened. `extra` makes
room for derivations that are nested deeper: these are turned down for it, and not just out of
sight. -/
theorem parse_eq_ok_iff_derivation (s : String) (e : Expr) (extra : Nat) :
    (parse s = .ok e ↔ ∃ d : Derivation (maxDepth + extra), d.text = s.toList ∧
      d.tree = some e ∧ d.nesting ≤ maxDepth ∧ e.height ≤ maxDepth) ∧
    ∀ d d' : Derivation (maxDepth + extra), d.text = s.toList → d'.text = s.toList → d = d' := by
  refine ⟨⟨fun h => ?_, ?_⟩, fun d d' hd hd' => Derivation.text_inj (hd.trans hd'.symm)⟩
  · obtain ⟨d, hs, htree⟩ := whole_sound extra (parse_eq_ok_iff.mp h)
    have hgood := parse_complete d hs
    rw [h] at hgood
    exact ⟨d, hs, htree, hgood.2⟩
  · rintro ⟨d, hs, htree, hfits, hlow⟩
    exact parse_of_derivation d hs htree hfits hlow

end FactorStudy.Grammar
