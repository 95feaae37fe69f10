import FactorStudy.Proofs.Grammar.Number
import FactorStudy.Proofs.Grammar.Reader

/-!
# What is read is a phrase

Whatever a reader takes from a text is a phrase of its level, with the tree that the reader returns.
A reader may stop before or after the blanks behind a phrase, so between the phrase and the rest
stands a gap, which the next token takes over (`Gap.append`).

There is one lemma for each level, from the soundness of the reader of signed terms that the level
is given, and one induction on the nesting at the end.
-/

namespace FactorStudy.Grammar

open Text (dropBlank)
open Expr.Parser

/-- No blanks. -/
def Gap.nil : Gap := ⟨[], fun _ hc => (List.not_mem_nil hc).elim⟩

theorem Gap.nil_append (s : List Char) : Gap.nil.chars ++ s = s := rfl

/-- Blanks after blanks. -/
def Gap.append (g g' : Gap) : Gap :=
  ⟨g.chars ++ g'.chars, fun c hc => (List.mem_append.mp hc).elim (g.blank c) (g'.blank c)⟩

theorem Gap.append_chars (g g' : Gap) (s : List Char) :
    (g.append g').chars ++ s = g.chars ++ (g'.chars ++ s) := List.append_assoc _ _ _

/-- What the reader takes is a phrase that denotes the tree it returns. -/
def Sound {σ : Type} (S : Nonterminal σ) (read : Reader) : Prop :=
  ∀ {s e h r}, view (read s) = .ok (e, h, r) →
    ∃ (d : σ) (g : Gap), S.text d ++ (g.chars ++ r) = s ∧ S.tree d = some e

/-- The reader passes over blanks first. -/
def Skips (read : Reader) : Prop := ∀ s, view (read (dropBlank s)) = view (read s)

/-! ## Chains -/

/-- The reader of operators knows those of its level. -/
def OperatorSound (ops : List BinaryOp) (operator : Operator) : Prop :=
  ∀ {s op t}, operator s = some (op, t) → op ∈ ops ∧ op.symbol.toList ++ t.1 = s

theorem sumOperator_sound : OperatorSound sumOps sumOperator := by
  intro s op t h
  unfold sumOperator at h
  split at h
  · cases h; exact ⟨by decide, rfl⟩
  · cases h; exact ⟨by decide, rfl⟩
  · cases h

theorem productOperator_sound : OperatorSound productOps productOperator := by
  intro s op t h
  unfold productOperator at h
  split at h
  · cases h
  · cases h; exact ⟨by decide, rfl⟩
  · cases h; exact ⟨by decide, rfl⟩
  · cases h

section Chain

variable {σ : Type} {S : Nonterminal σ} {ops : List BinaryOp} {operator : Operator}
  {operand : Reader}

/-- The induction is on the text; the blanks in front of it go to the next operator or, when there
is none, to the rest. -/
theorem chainView_sound (hop : OperatorSound ops operator) (hoperand : Sound S operand) :
    ∀ (n : Nat) {s r : List Char} {left e : Expr} {height h : Nat} (g : Gap), s.length = n →
      chainView operator operand left height s = .ok (e, h, r) →
      ∃ (links : List (Link ops σ)) (g' : Gap),
        links.flatMap (Chain.linkText S) ++ (g'.chars ++ r) = g.chars ++ s ∧
          links.foldlM (Chain.extend S) left = some e := by
  intro n
  induction n using Nat.strongRecOn with
  | ind n ih =>
    intro s r left e height h g hn hread
    cases hopr : operator (dropBlank s) with
    | none =>
      -- the chain ends, and the blanks after it are left to the rest
      rw [chainView_none hopr] at hread
      cases hread
      refine ⟨[], g.append (gapOf s), ?_, rfl⟩
      rw [List.flatMap_nil, List.nil_append, Gap.append_chars, gapOf_append_dropBlank]
    | some found =>
      obtain ⟨op, t⟩ := found
      rw [chainView_some hopr] at hread
      obtain ⟨⟨e', h', r'⟩, hright, hread⟩ := exists_of_bind_eq_ok hread
      obtain ⟨height', -, hread⟩ := exists_of_bind_eq_ok hread
      obtain ⟨d, g', htext, htree⟩ := hoperand hright
      obtain ⟨hmem, hsymbol⟩ := hop hopr
      have hlt : r'.length < n := by
        have h₁ := congrArg List.length htext
        have h₂ := Text.length_dropBlank_le s
        have h₃ := t.2
        simp only [List.length_append] at h₁
        omega
      obtain ⟨links, g'', hlinks, hfold⟩ := ih _ hlt g' rfl hread
      refine ⟨⟨g.append (gapOf s), op, hmem, d⟩ :: links, g'', ?_, ?_⟩
      · rw [List.flatMap_cons, List.append_assoc, hlinks]
        simp only [Chain.linkText, List.append_assoc, Gap.append_chars]
        rw [htext, hsymbol, gapOf_append_dropBlank]
      · simp only [List.foldlM_cons, Chain.extend, htree]
        exact hfold

theorem chain_sound (hop : OperatorSound ops operator) (hoperand : Sound S operand) :
    Sound (Chain.nonterminal ops S) (chain operator operand) := by
  intro s e h r hread
  rw [view_chain] at hread
  obtain ⟨⟨first, height, r'⟩, hfirst, hrest⟩ := exists_of_bind_eq_ok hread
  obtain ⟨d, g, htext, htree⟩ := hoperand hfirst
  obtain ⟨links, g', hlinks, hfold⟩ := chainView_sound hop hoperand _ g rfl hrest
  refine ⟨⟨d, links⟩, g', ?_, ?_⟩
  · show (S.text d ++ _) ++ _ = s
    rw [List.append_assoc, hlinks, htext]
  · show (S.tree d).bind _ = some e
    rw [htree]
    exact hfold

theorem chain_skips (hoperand : Skips operand) : Skips (chain operator operand) := by
  intro s
  rw [view_chain, view_chain, hoperand]

end Chain

section Levels

variable {σ : Type} {S : Nonterminal σ} {read : Reader}

theorem sum_sound (hread : Sound S read) : Sound (sums S) (Expr.Parser.sum read) :=
  chain_sound sumOperator_sound (chain_sound productOperator_sound hread)

theorem sum_skips (hskip : Skips read) : Skips (Expr.Parser.sum read) :=
  chain_skips (chain_skips hskip)

/-! ## Primaries -/

theorem number_sound {s r : List Char} {e : Expr} {h : Nat}
    (hread : view (number s) = .ok (e, h, r)) :
    ∃ t : NumberToken, t.text ++ r = s ∧ Expr.literal t.numeral.toFloat = e := by
  rw [view_number] at hread
  split at hread
  · rename_i n r' hn
    cases hread
    obtain ⟨t, htext, rfl⟩ := NumberToken.exists_of_readNumeral? hn
    exact ⟨t, htext, rfl⟩
  · cases hread

theorem expectView_sound {c : Char} {s r : List Char} (h : expectView c s = .ok r) :
    dropBlank s = c :: r := by
  rw [expectView] at h
  split at h
  · rename_i d r' hs
    split at h
    · rename_i hd
      cases h
      rw [hs, hd]
    · cases h
  · cases h

theorem parenthesized_sound (hread : Sound S read) {s r : List Char} {e : Expr} {h : Nat}
    (hview : view (parenthesized read s) = .ok (e, h, r)) :
    ∃ (d : Sum σ) (g : Gap), (sums S).text d ++ (g.chars ++ ')' :: r) = s ∧
      (sums S).tree d = some e := by
  rw [view_parenthesized] at hview
  obtain ⟨⟨e', h', r'⟩, hinner, hview⟩ := exists_of_bind_eq_ok hview
  obtain ⟨r'', hclose, hview⟩ := exists_of_bind_eq_ok hview
  cases hview
  obtain ⟨d, g, htext, htree⟩ := sum_sound hread hinner
  refine ⟨d, g.append (gapOf r'), ?_, htree⟩
  rw [Gap.append_chars, gapOf_append_of_dropBlank (expectView_sound hclose), htext]

/-- The arguments up to the closing parenthesis; the induction is on the text. -/
theorem argumentsView_sound {τ : Type} {T : Nonterminal τ} {argument : Reader}
    (hread : Sound T argument) (hskip : Skips argument) :
    ∀ (n : Nat) {s r : List Char} {args : List Argument}, s.length = n →
      argumentsView argument s = .ok (args, r) →
      ∃ (first : τ) (more : List (MoreArgument τ)) (close : Gap),
        (Arguments.some first more close).text T ++ r = s ∧
          (Arguments.some first more close).toList.mapM T.tree = some (args.map (·.expr)) := by
  intro n
  induction n using Nat.strongRecOn with
  | ind n ih =>
    intro s r args hn hview
    rw [argumentsView_eq, hskip] at hview
    obtain ⟨⟨e, h, r'⟩, hfirst, hview⟩ := exists_of_bind_eq_ok hview
    obtain ⟨d, g, htext, htree⟩ := hread hfirst
    simp only at hview
    split at hview
    · -- a comma: the arguments after it, the first of them with the blanks before the comma
      rename_i more' hcomma
      obtain ⟨⟨others, rest⟩, hothers, hview⟩ := exists_of_bind_eq_ok hview
      cases hview
      have hlt : more'.length < n := by
        have h₁ := congrArg List.length htext
        have h₂ := Text.length_dropBlank_le r'
        rw [hcomma] at h₂
        simp only [List.length_append, List.length_cons] at h₁ h₂
        omega
      obtain ⟨first, more, close, hmore, hmap⟩ := ih _ hlt rfl hothers
      refine ⟨d, ⟨g.append (gapOf r'), first⟩ :: more, close, ?_, ?_⟩
      · simp only [Arguments.text, List.flatMap_cons, Arguments.moreText, List.append_assoc,
          Gap.append_chars, List.cons_append] at hmore ⊢
        rw [hmore, gapOf_append_of_dropBlank hcomma, htext]
      · simp only [Arguments.toList, List.map_cons, List.mapM_cons] at hmap ⊢
        rw [htree, hmap]
        rfl
    · -- the closing parenthesis, with the blanks before it
      rename_i rest hclose
      cases hview
      refine ⟨d, [], g.append (gapOf r'), ?_, ?_⟩
      · simp only [Arguments.text, List.flatMap_nil, List.nil_append, List.append_assoc,
          Gap.append_chars, List.cons_append]
        rw [gapOf_append_of_dropBlank hclose, htext]
      · simp only [Arguments.toList, List.map_nil, List.mapM_cons, List.mapM_nil, htree]
        rfl
    · cases hview

theorem argumentListView_sound {τ : Type} {T : Nonterminal τ} {argument : Reader}
    (hread : Sound T argument) (hskip : Skips argument) {s r : List Char} {args : List Argument}
    (hview : argumentListView argument s = .ok (args, r)) :
    ∃ a : Arguments τ, a.text T ++ r = s ∧ a.toList.mapM T.tree = some (args.map (·.expr)) := by
  rw [argumentListView_eq] at hview
  split at hview
  · rename_i r' hs
    cases hview
    refine ⟨.none (gapOf s), ?_, rfl⟩
    simp only [Arguments.text, List.append_assoc, List.cons_append, List.nil_append]
    exact gapOf_append_of_dropBlank hs
  · obtain ⟨first, more, close, htext, hmap⟩ := argumentsView_sound hread hskip _ rfl hview
    exact ⟨.some first more close, htext, hmap⟩

/-- Every function takes an argument. -/
theorem arity_pos (f : Builtin) : 0 < f.arity := by
  have hseries : 0 < f.seriesArity := by cases f <;> simp [Builtin.seriesArity]
  exact Nat.lt_of_lt_of_le hseries (Nat.le_add_right _ _)

/-- A call is finished when its arguments fit the function, and otherwise fails. -/
theorem finishCall_eq (f : Builtin) (args : List Argument) (start : List Char) :
    match Arguments.callOf f (args.map (·.expr)) with
    | some e => finishCall f args start =
        (grow ((args.map (·.height)).foldl max 0) start).bind fun h => .ok (e, h)
    | none => ∃ fault, finishCall f args start = .error fault := by
  unfold finishCall Arguments.callOf
  rw [List.length_map]
  by_cases hlen : args.length = f.arity
  · -- every function takes an argument, so there is a last one to look at
    obtain ⟨last, hlast⟩ : ∃ last, args.getLast? = some last := by
      cases hargs : args.getLast? with
      | none =>
        rw [List.getLast?_eq_none_iff.mp hargs] at hlen
        exact absurd hlen (Nat.ne_of_lt (arity_pos f))
      | some last => exact ⟨last, rfl⟩
    have hmap : (args.map (·.expr)).getLast? = some last.expr := by
      rw [List.getLast?_map, hlast]
      rfl
    simp only [hlen, ne_eq, not_true, if_false, hlast, hmap, true_and, Option.any_some]
    cases f.hasWindow with
    | false => rfl
    | true =>
      cases isWindow last.expr with
      | false => exact ⟨_, rfl⟩
      | true => rfl
  · simp only [hlen, ne_eq, not_false_eq_true, if_true, false_and, if_false]
    exact ⟨_, rfl⟩

theorem finishCall_sound {f : Builtin} {args : List Argument} {start : List Char} {e : Expr}
    {h : Nat} (hcall : finishCall f args start = .ok (e, h)) :
    Arguments.callOf f (args.map (·.expr)) = some e := by
  have heq := finishCall_eq f args start
  cases hof : Arguments.callOf f (args.map (·.expr)) with
  | some e' =>
    simp only [hof, hcall] at heq
    obtain ⟨_, _, hok⟩ := exists_of_bind_eq_ok heq.symm
    cases hok
    rfl
  | none =>
    simp only [hof, hcall] at heq
    obtain ⟨_, hfault⟩ := heq
    cases hfault

/-- The longest word at a place where a word can begin. -/
theorem exists_name {c : Char} (hc : c.isAlpha = true ∨ c = '_') (s : List Char) :
    ∃ x : Name, x.text = (c :: s).takeWhile isNameChar ∧
      x.text ++ (c :: s).dropWhile isNameChar = c :: s := by
  have htake : (c :: s).takeWhile isNameChar = c :: s.takeWhile isNameChar := by
    rw [List.takeWhile_cons, isNameChar_of_first hc]
    rfl
  refine ⟨⟨c, s.takeWhile isNameChar, hc, mem_takeWhile _ s⟩, htake.symm, ?_⟩
  rw [Name.text, ← htake, List.takeWhile_append_dropWhile]

theorem name_sound (hread : Sound S read) (hskip : Skips read) {c : Char}
    (hc : c.isAlpha = true ∨ c = '_') {s r : List Char} {e : Expr} {h : Nat}
    (hview : view (name read (c :: s)) = .ok (e, h, r)) :
    ∃ (p : Primary σ) (g : Gap), p.text S ++ (g.chars ++ r) = c :: s ∧ p.tree S = some e := by
  obtain ⟨x, hword, htext⟩ := exists_name hc s
  -- the branches of the reader, of which two succeed: a call and a column
  rw [view_name, ← hword] at hview
  split at hview
  · split at hview
    · rename_i inside hparen
      split at hview
      · cases hview
      · rename_i f hf
        obtain ⟨⟨args, r'⟩, hargs, hview⟩ := exists_of_bind_eq_ok hview
        obtain ⟨⟨e', h'⟩, hcall, hview⟩ := exists_of_bind_eq_ok hview
        cases hview
        obtain ⟨a, hatext, hatree⟩ :=
          argumentListView_sound (sum_sound hread) (sum_skips hskip) hargs
        refine ⟨.call x (gapOf ((c :: s).dropWhile isNameChar)) a, Gap.nil, ?_, ?_⟩
        · simp only [Primary.text, List.append_assoc, List.cons_append, Gap.nil_append]
          rw [hatext, gapOf_append_of_dropBlank hparen, htext]
        · simp only [Primary.tree, Name.word, hf, hatree]
          exact finishCall_sound hcall
    · split at hview
      · rename_i col hcol
        cases hview
        refine ⟨.column x, gapOf ((c :: s).dropWhile isNameChar), ?_, ?_⟩
        · rw [Primary.text, gapOf_append_dropBlank, htext]
        · simp only [Primary.tree, Name.word, hcol]
          rfl
      · cases hview
  · cases hview

theorem primary_sound (hread : Sound S read) (hskip : Skips read) :
    Sound (Primary.nonterminal S) (primary read) := by
  intro s e h r hview
  rw [view_primary] at hview
  split at hview
  · rename_i inside
    obtain ⟨d, g, htext, htree⟩ := parenthesized_sound hread hview
    refine ⟨.group d g, Gap.nil, ?_, htree⟩
    show ('(' :: ((sums S).text d ++ (g.chars ++ [')']))) ++ r = _
    rw [← htext]
    simp only [List.cons_append, List.append_assoc, List.nil_append]
  · rename_i c s _
    split at hview
    · obtain ⟨t, htext, htree⟩ := number_sound hview
      exact ⟨.number t, Gap.nil, htext, congrArg some htree⟩
    · split at hview
      · rename_i hc
        exact name_sound hread hskip hc hview
      · cases hview
  · cases hview

/-! ## Powers and signed terms -/

theorem power_sound (hread : Sound S read) (hskip : Skips read) :
    Sound (Power.nonterminal S) (power read) := by
  intro s e h r hview
  rw [view_power] at hview
  obtain ⟨⟨e', h', r'⟩, hbase, hview⟩ := exists_of_bind_eq_ok hview
  obtain ⟨b, g, htext, htree⟩ := primary_sound hread hskip hbase
  simp only at hview
  split at hview
  · rename_i t hstars
    obtain ⟨⟨x, hx, r''⟩, hexponent, hview⟩ := exists_of_bind_eq_ok hview
    obtain ⟨height, -, hview⟩ := exists_of_bind_eq_ok hview
    cases hview
    obtain ⟨d, g', hdtext, hdtree⟩ := hread hexponent
    -- blanks in front of the stars stand behind the base, which has read them already
    refine ⟨.raised b (g.append (gapOf r')) d, g', ?_, ?_⟩
    · show (b.text S ++ ((g.append (gapOf r')).chars ++ '*' :: '*' :: S.text d)) ++ _ = s
      simp only [List.append_assoc, List.cons_append, Gap.append_chars]
      rw [hdtext, gapOf_append_of_dropBlank hstars]
      exact htext
    · show (b.tree S).bind _ = some _
      rw [show b.tree S = some e' from htree]
      show (S.tree d).bind _ = some _
      rw [hdtree]
      rfl
  · cases hview
    refine ⟨.plain b, g.append (gapOf r'), ?_, htree⟩
    rw [Gap.append_chars, gapOf_append_dropBlank]
    exact htext

theorem negate_sound {e e' : Expr} {height h : Nat} {s : List Char}
    (hneg : negate e height s = .ok (e', h)) : e' = negated e := by
  cases e with
  | literal v => cases hneg; rfl
  | column c => obtain ⟨_, _, hok⟩ := exists_of_bind_eq_ok hneg; cases hok; rfl
  | neg e => obtain ⟨_, _, hok⟩ := exists_of_bind_eq_ok hneg; cases hok; rfl
  | binary op l r => obtain ⟨_, _, hok⟩ := exists_of_bind_eq_ok hneg; cases hok; rfl
  | call f args => obtain ⟨_, _, hok⟩ := exists_of_bind_eq_ok hneg; cases hok; rfl

end Levels

theorem signed_skips (n : Nat) : Skips (Expr.Parser.signed n) := by
  intro s
  cases n with
  | zero => rw [view_signed_zero, view_signed_zero, dropBlank_dropBlank]
  | succ n => rw [view_signed_succ, view_signed_succ, dropBlank_dropBlank]

/-- What the reader of signed terms takes, with `n` of them still allowed inside each other, is a
signed term of that nesting. -/
theorem signed_sound (n : Nat) :
    ∀ m, n ≤ m → Sound (signedTerms m) (Expr.Parser.signed n) := by
  induction n with
  | zero =>
    intro m _ s e h r hview
    rw [view_signed_zero] at hview
    cases hview
  | succ n ih =>
    intro m hle
    cases m with
    | zero => exact absurd hle (Nat.not_succ_le_zero n)
    | succ m =>
      have ih : Sound (signedTerms m) (Expr.Parser.signed n) := ih m (Nat.le_of_succ_le_succ hle)
      intro s e h r hview
      rw [view_signed_succ] at hview
      split at hview
      · -- the blanks before the minus are the gap of the phrase
        rename_i t hminus
        obtain ⟨⟨e', h', r'⟩, hoperand, hview⟩ := exists_of_bind_eq_ok hview
        obtain ⟨⟨e'', h''⟩, hneg, hview⟩ := exists_of_bind_eq_ok hview
        cases hview
        obtain ⟨d, g, htext, htree⟩ := ih hoperand
        refine ⟨SignedTerm.minus (gapOf s) d, g, ?_, ?_⟩
        · show ((gapOf s).chars ++ '-' :: (signedTerms m).text d) ++ _ = s
          rw [List.append_assoc, List.cons_append, htext, gapOf_append_of_dropBlank hminus]
        · show ((signedTerms m).tree d).map negated = some _
          rw [htree, negate_sound hneg]
          rfl
      · obtain ⟨d, g, htext, htree⟩ := power_sound ih (signed_skips n) hview
        refine ⟨SignedTerm.plain (gapOf s) d, g, ?_, htree⟩
        show ((gapOf s).chars ++ d.text (signedTerms m)) ++ _ = s
        rw [List.append_assoc]
        exact gapOf_append_of_dropBlank htext.symm

end FactorStudy.Grammar
