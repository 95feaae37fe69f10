import FactorStudy.Proofs.Grammar.Seam
import FactorStudy.Proofs.Grammar.Sound

/-!
# What is a phrase is read

On a phrase followed by something that cannot belong to it, a reader stops exactly where the phrase
ends. It returns the tree of the phrase when there is one, the signed terms are nested no deeper
than is allowed, and the tree is no higher than is allowed; otherwise it fails, and for a phrase
that does have a tree the fault is that of too deep a nesting (`Complete`).

The height is counted while reading, so every level also says that the count is the height of the
tree.
-/

namespace FactorStudy.Grammar

open Text (isBlank dropBlank)
open FactorStudy.Expr (maxDepth)
open Expr.Parser

/-- What is asked of a result, and of a fault. -/
def Outcome {ε α : Type} (x : Except ε α) (good : α → Prop) (bad : ε → Prop) : Prop :=
  match x with
  | .ok a => good a
  | .error f => bad f

theorem Outcome.bind {ε α β : Type} {x : Except ε α} {f : α → Except ε β} {good : α → Prop}
    {good' : β → Prop} {bad bad' : ε → Prop} (hx : Outcome x good bad)
    (hbad : ∀ fault, bad fault → bad' fault) (hf : ∀ a, good a → Outcome (f a) good' bad') :
    Outcome (x.bind f) good' bad' := by
  cases x with
  | error fault => exact hbad fault hx
  | ok a => exact hf a hx

theorem Outcome.mono {ε α : Type} {x : Except ε α} {good good' : α → Prop} {bad bad' : ε → Prop}
    (hx : Outcome x good bad) (hgood : ∀ a, good a → good' a)
    (hbad : ∀ fault, bad fault → bad' fault) : Outcome x good' bad' := by
  cases x with
  | error fault => exact hbad fault hx
  | ok a => exact hgood a hx

/-- What is read from a phrase with the tree `t`, if it `fits` the nesting, before the text `r`. -/
structure Reads (t : Option Expr) (fits : Prop) (r : List Char) (x : Expr × Nat × List Char) :
    Prop where
  tree : t = some x.1
  fits : fits
  height : x.2.1 = x.1.height
  low : x.1.height ≤ maxDepth
  rest : dropBlank x.2.2 = dropBlank r

/-- A fault that a phrase with the tree `t` may be turned down for. -/
structure TooDeep (t : Option Expr) (fits : Prop) (f : Fault) : Prop where
  cause : ∀ {e}, t = some e → f.cause = .nestedTooDeeply
  high : ∀ {e}, t = some e → fits → maxDepth < e.height

/-- The reader is right about every phrase before a text that `F` allows, with `n` signed terms
allowed inside each other. -/
def Complete {σ : Type} (S : Nonterminal σ) (F : List Char → Prop) (n : Nat) (read : Reader) :
    Prop :=
  ∀ (d : σ) {r : List Char}, F r →
    Outcome (view (read (S.text d ++ r))) (Reads (S.tree d) (S.nesting d ≤ n) r)
      (TooDeep (S.tree d) (S.nesting d ≤ n))

/-- A phrase without a tree may fail in any way. -/
theorem TooDeep.of_none {t : Option Expr} (ht : t = none) {fits : Prop} (f : Fault) :
    TooDeep t fits f := by
  constructor
  · intro e he
    rw [ht] at he
    cases he
  · intro e he
    rw [ht] at he
    cases he

/-- A part that is nested too deeply makes the whole so. -/
theorem TooDeep.mono {t t' : Option Expr} {fits fits' : Prop} {f : Fault} (h : TooDeep t fits f)
    (hfits : fits' → fits) (htree : ∀ {e'}, t' = some e' → ∃ e, t = some e ∧ e.height ≤ e'.height) :
    TooDeep t' fits' f := by
  constructor
  · intro e' he'
    obtain ⟨e, he, -⟩ := htree he'
    exact h.cause he
  · intro e' he' hf
    obtain ⟨e, he, hle⟩ := htree he'
    exact Nat.lt_of_lt_of_le (h.high he (hfits hf)) hle

/-- A leaf is never too high. -/
theorem one_le_maxDepth : 1 ≤ maxDepth := by decide

theorem outcome_grow (child : Nat) (u : List Char) :
    Outcome (grow child u) (fun h => h = child + 1 ∧ child + 1 ≤ maxDepth)
      (fun f => f.cause = .nestedTooDeeply ∧ maxDepth < child + 1) := by
  unfold grow
  by_cases h : child + 1 ≤ maxDepth
  · rw [if_pos h]
    exact ⟨rfl, h⟩
  · rw [if_neg h]
    exact ⟨rfl, Nat.lt_of_not_le h⟩

theorem nestingAll_le {σ : Type} {S : Nonterminal σ} {n : Nat} {phrases : List σ} :
    S.nestingAll phrases ≤ n ↔ ∀ d ∈ phrases, S.nesting d ≤ n := by
  induction phrases with
  | nil => simp [Nonterminal.nestingAll]
  | cons d ds ih =>
    have hcons : S.nestingAll (d :: ds) = max (S.nesting d) (S.nestingAll ds) := rfl
    rw [hcons, Nat.max_le, ih, List.forall_mem_cons]

/-! ## Chains -/

section Chain

variable {σ : Type} {S : Nonterminal σ} {ops : List BinaryOp} {operator : Operator}
  {operand : Reader} {F G : List Char → Prop} {n : Nat}

theorem Chain.exists_of_extend {left e : Expr} {k : Link ops σ}
    (h : Chain.extend S left k = some e) :
    ∃ right, S.tree k.operand = some right ∧ e = .binary k.op left right := by
  obtain ⟨right, hright, rfl⟩ := Option.map_eq_some_iff.mp h
  exact ⟨right, hright, rfl⟩

/-- A chain is at least as high as its first operand. -/
theorem Chain.height_le_of_foldlM {links : List (Link ops σ)} :
    ∀ {left e : Expr}, links.foldlM (Chain.extend S) left = some e → left.height ≤ e.height := by
  induction links with
  | nil =>
    intro left e h
    cases h
    exact Nat.le_refl _
  | cons k links ih =>
    intro left e h
    rw [List.foldlM_cons] at h
    obtain ⟨e', he', h⟩ := Option.bind_eq_some_iff.mp h
    obtain ⟨right, -, rfl⟩ := Chain.exists_of_extend he'
    refine Nat.le_trans ?_ (ih h)
    exact Nat.le_succ_of_le (Nat.le_max_left _ _)

/-- The links of a chain, read after the tree to their left; the induction is on the links. -/
theorem chainView_complete (level : Level ops operator F G) (hS : Starts S)
    (hread : Complete S F n operand) {r : List Char} (hr : G r) (links : List (Link ops σ)) :
    ∀ {s : List Char} {left : Expr}, left.height ≤ maxDepth →
      dropBlank s = dropBlank (links.flatMap (Chain.linkText S) ++ r) →
      Outcome (chainView operator operand left left.height s)
        (Reads (links.foldlM (Chain.extend S) left) (∀ k ∈ links, S.nesting k.operand ≤ n) r)
        (TooDeep (links.foldlM (Chain.extend S) left) (∀ k ∈ links, S.nesting k.operand ≤ n)) := by
  induction links with
  | nil =>
    -- what follows a chain is no operator of its level, so the reader stops
    intro s left hlow hs
    have hnone : operator (dropBlank s) = none := by rw [hs]; exact level.stops hr
    rw [chainView_none hnone]
    exact ⟨rfl, fun k hk => (List.not_mem_nil hk).elim, rfl, hlow, by
      rw [dropBlank_dropBlank, hs]; rfl⟩
  | cons k links ih =>
    intro s left hlow hs
    have hop : dropBlank s = k.op.symbol.toList ++
        (S.text k.operand ++ (links.flatMap (Chain.linkText S) ++ r)) := by
      rw [hs, List.flatMap_cons, Chain.linkText]
      simp only [List.append_assoc]
      rw [dropBlank_gap, dropBlank_symbol]
    have hfound : ∃ h, operator (dropBlank s) = some (k.op,
        ⟨S.text k.operand ++ (links.flatMap (Chain.linkText S) ++ r), h⟩) := by
      rw [hop]
      exact level.found k.op_mem (hS.head_ne k.operand _)
    obtain ⟨_, hfound⟩ := hfound
    rw [chainView_some hfound]
    -- a tree of the whole chain gives one of this operand and of the chain up to it
    have hparts : ∀ {e}, (k :: links).foldlM (Chain.extend S) left = some e →
        ∃ right, S.tree k.operand = some right ∧
          links.foldlM (Chain.extend S) (.binary k.op left right) = some e := by
      intro e he
      rw [List.foldlM_cons] at he
      obtain ⟨e', he', he⟩ := Option.bind_eq_some_iff.mp he
      obtain ⟨right, hright, rfl⟩ := Chain.exists_of_extend he'
      exact ⟨right, hright, he⟩
    refine Outcome.bind (hread k.operand (level.follows hS hr links)) ?_ ?_
    · -- the operand is turned down
      intro fault hfault
      refine hfault.mono (fun h => h k List.mem_cons_self) fun he => ?_
      obtain ⟨right, hright, he⟩ := hparts he
      refine ⟨right, hright, Nat.le_trans ?_ (Chain.height_le_of_foldlM he)⟩
      exact Nat.le_succ_of_le (Nat.le_max_right _ _)
    · rintro ⟨right, height, r'⟩ hright
      obtain ⟨htree, hfits, hheight, -, hrest⟩ := hright
      simp only at htree hheight hrest ⊢
      subst hheight
      have hfold : (k :: links).foldlM (Chain.extend S) left =
          links.foldlM (Chain.extend S) (.binary k.op left right) := by
        rw [List.foldlM_cons, Chain.extend, htree]
        rfl
      rw [hfold]
      refine Outcome.bind (outcome_grow _ _) ?_ ?_
      · -- the chain up to here is too high, and the whole is no lower
        rintro fault ⟨hcause, hhigh⟩
        exact ⟨fun _ => hcause, fun he _ =>
          Nat.lt_of_lt_of_le hhigh (Chain.height_le_of_foldlM he)⟩
      · rintro height' ⟨rfl, hlow'⟩
        have hlow : (Expr.binary k.op left right).height ≤ maxDepth := hlow'
        refine Outcome.mono (ih hlow hrest) ?_ ?_
        · exact fun x hx => { hx with fits := List.forall_mem_cons.mpr ⟨hfits, hx.fits⟩ }
        · exact fun fault hfault =>
            { hfault with high := fun he h => hfault.high he (List.forall_mem_cons.mp h).2 }

theorem chain_complete (level : Level ops operator F G) (hS : Starts S)
    (hread : Complete S F n operand) :
    Complete (Chain.nonterminal ops S) G n (chain operator operand) := by
  intro d r hr
  have htext : (Chain.nonterminal ops S).text d ++ r =
      S.text d.first ++ (d.links.flatMap (Chain.linkText S) ++ r) := List.append_assoc _ _ _
  have hfits : (Chain.nonterminal ops S).nesting d ≤ n ↔
      S.nesting d.first ≤ n ∧ ∀ k ∈ d.links, S.nesting k.operand ≤ n := by
    show S.nestingAll (d.first :: d.links.map (·.operand)) ≤ n ↔ _
    rw [nestingAll_le, List.forall_mem_cons, List.forall_mem_map]
  rw [htext, view_chain, hfits]
  refine Outcome.bind (hread d.first (level.follows hS hr d.links)) ?_ ?_
  · -- nested too deeply already in the first operand
    intro fault hfault
    refine hfault.mono And.left fun he => ?_
    obtain ⟨first, hfirst, he⟩ := Option.bind_eq_some_iff.mp he
    exact ⟨first, hfirst, Chain.height_le_of_foldlM he⟩
  · -- the first operand was read in full, and its links are what is left
    rintro ⟨first, height, r'⟩ ⟨htree, hnesting, hheight, hlow, hrest⟩
    simp only at htree hheight hlow hrest ⊢
    subst hheight
    have hfold : (Chain.nonterminal ops S).tree d =
        d.links.foldlM (Chain.extend S) first := by
      show (S.tree d.first).bind _ = _
      rw [htree]
      rfl
    rw [hfold]
    refine (chainView_complete level hS hread hr d.links hlow hrest).mono ?_ ?_
    · exact fun x hx => { hx with fits := ⟨hnesting, hx.fits⟩ }
    · exact fun fault hfault => { hfault with high := fun he h => hfault.high he h.2 }

end Chain

/-! ## Primaries -/

section Levels

variable {σ : Type} {S : Nonterminal σ} {read : Reader} {n : Nat}

theorem sum_complete (hS : Starts S) (hread : Complete S FollowsPower n read) :
    Complete (sums S) (Follows afterSum) n (Expr.Parser.sum read) :=
  chain_complete sumLevel (starts_chain hS) (chain_complete productLevel hS hread)

theorem number_complete (t : NumberToken) {r : List Char} (hr : Follows afterPrimary r) :
    view (number (t.text ++ r)) = .ok (.literal t.numeral.toFloat, 1, r) := by
  rw [view_number, t.readNumeral?_text hr.stopsAt_word]

theorem expectView_gap {c : Char} (hc : isBlank c = false) (g : Gap) {s r : List Char}
    (hs : dropBlank s = dropBlank (g.chars ++ c :: r)) : expectView c s = .ok r := by
  rw [dropBlank_gap, dropBlank_cons hc] at hs
  rw [expectView, hs]
  simp only [if_true]

theorem parenthesized_complete (hS : Starts S) (hread : Complete S FollowsPower n read)
    (d : Sum σ) (g : Gap) (r : List Char) :
    Outcome (view (parenthesized read ((sums S).text d ++ (g.chars ++ ')' :: r))))
      (Reads ((sums S).tree d) ((sums S).nesting d ≤ n) r)
      (TooDeep ((sums S).tree d) ((sums S).nesting d ≤ n)) := by
  rw [view_parenthesized]
  have hfollows : Follows afterSum (g.chars ++ ')' :: r) := follows_gap g (by decide) (by decide) r
  refine Outcome.bind (sum_complete hS hread d hfollows) (fun _ h => h) ?_
  rintro ⟨e, height, r'⟩ hx
  rw [expectView_gap (by decide) g hx.rest]
  exact ⟨hx.tree, hx.fits, hx.height, hx.low, rfl⟩

/-- What is read as the arguments of a call that has the trees `t`. -/
structure ReadsAll (t : Option (List Expr)) (fits : Prop) (r : List Char)
    (x : List Argument × List Char) : Prop where
  trees : t = some (x.1.map (·.expr))
  fits : fits
  height : ∀ a ∈ x.1, a.height = a.expr.height
  rest : x.2 = r

/-- A fault that arguments with the trees `t` may be turned down for. -/
structure TooDeepAll (t : Option (List Expr)) (fits : Prop) (f : Fault) : Prop where
  cause : ∀ {es}, t = some es → f.cause = .nestedTooDeeply
  high : ∀ {es}, t = some es → fits → ∃ e ∈ es, maxDepth < e.height

theorem exists_of_mapM_cons {α β : Type} {f : α → Option β} {a : α} {as : List α} {bs : List β}
    (h : (a :: as).mapM f = some bs) :
    ∃ b bs', f a = some b ∧ as.mapM f = some bs' ∧ bs = b :: bs' := by
  rw [List.mapM_cons] at h
  obtain ⟨b, hb, h⟩ := Option.bind_eq_some_iff.mp h
  obtain ⟨bs', hbs, h⟩ := Option.bind_eq_some_iff.mp h
  cases h
  exact ⟨b, bs', hb, hbs, rfl⟩

theorem mapM_cons_eq_some {α β : Type} {f : α → Option β} {a : α} {as : List α} {b : β}
    {bs : List β} (ha : f a = some b) (has : as.mapM f = some bs) :
    (a :: as).mapM f = some (b :: bs) := by
  rw [List.mapM_cons, ha, has]
  rfl

section Arguments

variable {τ : Type} {T : Nonterminal τ} {argument : Reader}

theorem TooDeep.head {first : τ} {others : List τ} {fault : Fault}
    (h : TooDeep (T.tree first) (T.nesting first ≤ n) fault) :
    TooDeepAll ((first :: others).mapM T.tree) (∀ d ∈ first :: others, T.nesting d ≤ n) fault := by
  constructor
  · intro es hes
    obtain ⟨e, _, he, -, -⟩ := exists_of_mapM_cons hes
    exact h.cause he
  · intro es hes hfits
    obtain ⟨e, es', he, -, rfl⟩ := exists_of_mapM_cons hes
    exact ⟨e, List.mem_cons_self, h.high he (hfits first List.mem_cons_self)⟩

theorem TooDeepAll.tail {first : τ} {others : List τ} {fault : Fault}
    (h : TooDeepAll (others.mapM T.tree) (∀ d ∈ others, T.nesting d ≤ n) fault) :
    TooDeepAll ((first :: others).mapM T.tree) (∀ d ∈ first :: others, T.nesting d ≤ n) fault := by
  constructor
  · intro es hes
    obtain ⟨_, es', -, hes', -⟩ := exists_of_mapM_cons hes
    exact h.cause hes'
  · intro es hes hfits
    obtain ⟨e, es', -, hes', rfl⟩ := exists_of_mapM_cons hes
    obtain ⟨e', hmem, hlt⟩ := h.high hes' (List.forall_mem_cons.mp hfits).2
    exact ⟨e', List.mem_cons_of_mem e hmem, hlt⟩

/-- The arguments up to the closing parenthesis; the induction is on those after the first. -/
theorem argumentsView_complete (hread : Complete T (Follows afterSum) n argument)
    (hskip : Skips argument) (close : Gap) (r : List Char) (more : List (MoreArgument τ)) :
    ∀ first : τ,
      Outcome (argumentsView argument ((Arguments.some first more close).text T ++ r))
        (ReadsAll ((first :: more.map (·.argument)).mapM T.tree)
          (∀ d ∈ first :: more.map (·.argument), T.nesting d ≤ n) r)
        (TooDeepAll ((first :: more.map (·.argument)).mapM T.tree)
          (∀ d ∈ first :: more.map (·.argument), T.nesting d ≤ n)) := by
  induction more with
  | nil =>
    intro first
    have htext : (Arguments.some first [] close).text T ++ r =
        T.text first ++ (close.chars ++ ')' :: r) := by
      simp only [Arguments.text, List.flatMap_nil, List.nil_append, List.append_assoc,
        List.cons_append]
    have hfollows : Follows afterSum (close.chars ++ ')' :: r) :=
      follows_gap close (by decide) (by decide) r
    rw [htext, argumentsView_eq, hskip]
    refine Outcome.bind (hread first hfollows) (fun _ h => h.head) ?_
    rintro ⟨e, height, r'⟩ hx
    -- the gap in front of the parenthesis belongs to no argument
    have hrest : dropBlank r' = ')' :: r := by
      rw [hx.rest, dropBlank_gap, dropBlank_cons (by decide)]
    simp only [hrest]
    refine ⟨mapM_cons_eq_some hx.tree rfl, ?_, ?_, rfl⟩
    · exact List.forall_mem_cons.mpr ⟨hx.fits, fun d hd => (List.not_mem_nil hd).elim⟩
    · exact List.forall_mem_cons.mpr ⟨hx.height, fun d hd => (List.not_mem_nil hd).elim⟩
  | cons m more ih =>
    intro first
    have htext : (Arguments.some first (m :: more) close).text T ++ r =
        T.text first ++ (m.gap.chars ++
          ',' :: ((Arguments.some m.argument more close).text T ++ r)) := by
      simp only [Arguments.text, List.flatMap_cons, Arguments.moreText, List.append_assoc,
        List.cons_append]
    have hfollows : Follows afterSum (m.gap.chars ++
        ',' :: ((Arguments.some m.argument more close).text T ++ r)) :=
      follows_gap m.gap (by decide) (by decide) _
    rw [htext, argumentsView_eq, hskip]
    refine Outcome.bind (hread first hfollows) (fun _ h => h.head) ?_
    rintro ⟨e, height, r'⟩ hx
    have hrest : dropBlank r' = ',' :: ((Arguments.some m.argument more close).text T ++ r) := by
      rw [hx.rest, dropBlank_gap, dropBlank_cons (by decide)]
    simp only [hrest]
    refine Outcome.bind (ih m.argument) (fun _ h => h.tail) ?_
    rintro ⟨args, r''⟩ hargs
    refine ⟨mapM_cons_eq_some hx.tree hargs.trees, ?_, ?_, hargs.rest⟩
    · exact List.forall_mem_cons.mpr ⟨hx.fits, hargs.fits⟩
    · exact List.forall_mem_cons.mpr ⟨hx.height, hargs.height⟩

theorem argumentListView_complete (hT : Starts T)
    (hread : Complete T (Follows afterSum) n argument) (hskip : Skips argument)
    (a : Arguments τ) (r : List Char) :
    Outcome (argumentListView argument (a.text T ++ r))
      (ReadsAll (a.toList.mapM T.tree) (∀ d ∈ a.toList, T.nesting d ≤ n) r)
      (TooDeepAll (a.toList.mapM T.tree) (∀ d ∈ a.toList, T.nesting d ≤ n)) := by
  rw [argumentListView_eq]
  cases a with
  | none close =>
    have hclose : dropBlank ((Arguments.none close : Arguments τ).text T ++ r) = ')' :: r := by
      rw [Arguments.text, List.append_assoc, dropBlank_gap]
      exact dropBlank_cons (by decide) r
    simp only [hclose]
    exact ⟨rfl, fun d hd => (List.not_mem_nil hd).elim, fun d hd => (List.not_mem_nil hd).elim, rfl⟩
  | some first more close =>
    split
    · -- no argument begins with the closing parenthesis
      rename_i u hu
      rw [Arguments.text, List.append_assoc] at hu
      exact absurd hu (hT.dropBlank_ne (by decide) (by decide) (by decide) first _ u)
    · exact argumentsView_complete hread hskip close r more first

end Arguments

theorem foldl_max_height (args : List Argument) :
    ∀ k, (∀ a ∈ args, a.height = a.expr.height) →
      (args.map (·.height)).foldl max k = max k (Expr.heightAll (args.map (·.expr))) := by
  induction args with
  | nil => intro k _; exact (Nat.max_zero k).symm
  | cons a args ih =>
    intro k h
    obtain ⟨ha, h⟩ := List.forall_mem_cons.mp h
    show (args.map (·.height)).foldl max (max k a.height) = _
    rw [ih _ h, ha, Nat.max_assoc]
    rfl

theorem height_le_heightAll {e : Expr} {es : List Expr} (h : e ∈ es) :
    e.height ≤ Expr.heightAll es := by
  induction es with
  | nil => cases h
  | cons e' es ih =>
    rcases List.mem_cons.mp h with rfl | h
    · exact Nat.le_max_left _ _
    · exact Nat.le_trans (ih h) (Nat.le_max_right _ _)

theorem eq_call_of_callOf {f : Builtin} {es : List Expr} {e : Expr}
    (h : Arguments.callOf f es = some e) : e = .call f es := by
  unfold Arguments.callOf at h
  split at h
  · exact (Option.some.inj h).symm
  · cases h

theorem finishCall_complete (f : Builtin) {args : List Argument}
    (hheight : ∀ a ∈ args, a.height = a.expr.height) (start : List Char) :
    Outcome (finishCall f args start)
      (fun y => Arguments.callOf f (args.map (·.expr)) = some y.1 ∧ y.2 = y.1.height ∧
        y.1.height ≤ maxDepth)
      (fun fault => ∀ e, Arguments.callOf f (args.map (·.expr)) = some e →
        fault.cause = .nestedTooDeeply ∧ maxDepth < e.height) := by
  have hfinish := finishCall_eq f args start
  cases hcall : Arguments.callOf f (args.map (·.expr)) with
  | none =>
    simp only [hcall] at hfinish
    obtain ⟨fault, hfault⟩ := hfinish
    rw [hfault]
    intro e he
    cases he
  -- the arguments fit, so the only thing left to fail is the height
  | some e =>
    simp only [hcall] at hfinish
    rw [hfinish, foldl_max_height args 0 hheight, Nat.zero_max]
    obtain rfl := eq_call_of_callOf hcall
    refine Outcome.bind (outcome_grow _ _) ?_ ?_
    · rintro fault ⟨hcause, hhigh⟩ e he
      cases he
      exact ⟨hcause, hhigh⟩
    · rintro height ⟨rfl, hlow⟩
      exact ⟨rfl, rfl, hlow⟩

/-- A name is read to its end, and with what follows it as a call or a column. -/
theorem view_name_text (x : Name) {r : List Char} (hr : StopsAt isNameChar r) :
    view (name read (x.text ++ r)) = match dropBlank r with
      | '(' :: inside =>
        match Builtin.named? x.word with
        | none => .error ⟨.unknownFunction x.word, x.text ++ r⟩
        | some f =>
          (argumentListView (Expr.Parser.sum read) inside).bind fun args =>
            (finishCall f args.1 (x.text ++ r)).bind fun y => .ok (y.1, y.2, args.2)
      | rest =>
        match Column.named? x.word with
        | some c => .ok (.column c, 1, rest)
        | none => .error ⟨.unknownColumn x.word, x.text ++ r⟩ := by
  have hchars : ∀ c ∈ x.text, isNameChar c = true :=
    List.forall_mem_cons.mpr ⟨isNameChar_of_first x.first_mem, x.rest_mem⟩
  -- the reader asks that it has moved, and a name has a character
  have hlt : r.length < (x.text ++ r).length := by
    rw [List.length_append, Name.text, List.length_cons]
    omega
  rw [view_name, takeWhile_append_of_stopsAt hchars hr, dropWhile_append_of_stopsAt hchars hr,
    if_pos hlt]
  rfl

theorem call_complete (hS : Starts S) (hread : Complete S FollowsPower n read)
    (hskip : Skips read) (x : Name) (gap : Gap) (arguments : Arguments (Sum σ)) (r : List Char) :
    Outcome (view (name read ((Primary.call x gap arguments).text S ++ r)))
      (Reads ((Primary.call x gap arguments).tree S)
        ((Primary.call x gap arguments).nesting S ≤ n) r)
      (TooDeep ((Primary.call x gap arguments).tree S)
        ((Primary.call x gap arguments).nesting S ≤ n)) := by
  have hstop : StopsAt isNameChar (gap.chars ++ '(' :: (arguments.text (sums S) ++ r)) :=
    (stopsAt_word_gap gap (stopsAt_cons (by decide))).mono fun _ => isWordChar_of_isNameChar
  have hparen : dropBlank (gap.chars ++ '(' :: (arguments.text (sums S) ++ r)) =
      '(' :: (arguments.text (sums S) ++ r) := by
    rw [dropBlank_gap, dropBlank_cons (by decide)]
  have hfits : (Primary.call x gap arguments).nesting S ≤ n ↔
      ∀ d ∈ arguments.toList, (sums S).nesting d ≤ n := nestingAll_le
  rw [call_text, view_name_text x hstop, hfits]
  simp only [hparen, Primary.tree]
  cases hf : Builtin.named? x.word with
  | none => exact TooDeep.of_none rfl _
  | some f =>
    have htree : (do
        let f ← some f
        let es ← arguments.toList.mapM (sums S).tree
        Arguments.callOf f es) =
          (arguments.toList.mapM (sums S).tree).bind (Arguments.callOf f) := rfl
    rw [htree]
    have hargs := argumentListView_complete (starts_sums hS) (sum_complete hS hread)
      (sum_skips hskip) arguments r
    refine Outcome.bind hargs ?_ ?_
    · -- an argument is too high, or the signed terms of one are nested too deeply
      intro fault hfault
      constructor
      · intro e he
        obtain ⟨es, hes, -⟩ := Option.bind_eq_some_iff.mp he
        exact hfault.cause hes
      · intro e he hnesting
        obtain ⟨es, hes, hcall⟩ := Option.bind_eq_some_iff.mp he
        obtain ⟨a, hmem, hhigh⟩ := hfault.high hes hnesting
        rw [eq_call_of_callOf hcall]
        exact Nat.lt_succ_of_lt (Nat.lt_of_lt_of_le hhigh (height_le_heightAll hmem))
    · rintro ⟨args, r'⟩ ⟨htrees, hnesting, hheight, rfl⟩
      rw [htrees, Option.bind_some]
      refine Outcome.bind (finishCall_complete f hheight _) ?_ ?_
      · exact fun fault hfault => ⟨fun he => (hfault _ he).1, fun he _ => (hfault _ he).2⟩
      · exact fun y hy => ⟨hy.1, hnesting, hy.2.1, hy.2.2, rfl⟩

theorem column_complete (x : Name) {r : List Char} (hr : Follows afterPrimary r) :
    Outcome (view (name read (x.text ++ r)))
      (Reads ((Primary.column x : Primary σ).tree S) (0 ≤ n) r)
      (TooDeep ((Primary.column x : Primary σ).tree S) (0 ≤ n)) := by
  rw [view_name_text x (hr.stopsAt_word.mono fun _ => isWordChar_of_isNameChar)]
  have hne : ∀ u, dropBlank r ≠ '(' :: u := fun u hu =>
    absurd (hr '(' (by rw [hu]; rfl)) (by decide)
  split
  · exact (hne _ ‹_›).elim
  · simp only [Primary.tree]
    cases Column.named? x.word with
    | none => exact TooDeep.of_none rfl _
    | some c => exact ⟨rfl, Nat.zero_le n, rfl, one_le_maxDepth, dropBlank_dropBlank r⟩

theorem view_primary_number (t : NumberToken) (r : List Char) :
    view (primary read (t.text ++ r)) = view (number (t.text ++ r)) := by
  obtain ⟨c, s, htext, hc⟩ := t.exists_cons
  have hparen : c ≠ '(' := by
    rintro rfl
    exact absurd hc (by decide)
  rw [htext, List.cons_append, view_primary_cons hparen, if_pos hc]

theorem view_primary_name (x : Name) (r : List Char) :
    view (primary read (x.text ++ r)) = view (name read (x.text ++ r)) := by
  have hfirst := isNameChar_of_first x.first_mem
  have hparen : x.first ≠ '(' := by
    intro h
    rw [h] at hfirst
    exact absurd hfirst (by decide)
  rw [Name.text, List.cons_append, view_primary_cons hparen,
    if_neg (ne_number_of_first x.first_mem), if_pos x.first_mem]

theorem primary_complete (hS : Starts S) (hread : Complete S FollowsPower n read)
    (hskip : Skips read) :
    Complete (Primary.nonterminal S) (Follows afterPrimary) n (primary read) := by
  intro p r hr
  -- the first character of each kind is none of the others, so the reader takes its branch
  cases p with
  | number t =>
    show Outcome (view (primary read (t.text ++ r))) _ _
    rw [view_primary_number, number_complete t hr]
    exact ⟨rfl, Nat.zero_le n, rfl, one_le_maxDepth, rfl⟩
  | group d close =>
    show Outcome (view (primary read ((Primary.group d close).text S ++ r))) _ _
    rw [group_text, view_primary]
    exact parenthesized_complete hS hread d close r
  | call x gap arguments =>
    show Outcome (view (primary read ((Primary.call x gap arguments).text S ++ r))) _ _
    rw [call_text, view_primary_name, ← call_text]
    exact call_complete hS hread hskip x gap arguments r
  | column x =>
    show Outcome (view (primary read (x.text ++ r))) _ _
    rw [view_primary_name]
    exact column_complete (S := S) x hr

/-! ## Powers and signed terms -/

theorem Power.exists_of_raised {base : Primary σ} {gap : Gap} {exponent : σ} {e : Expr}
    (h : (Power.nonterminal S).tree (.raised base gap exponent) = some e) :
    ∃ b x, base.tree S = some b ∧ S.tree exponent = some x ∧ e = .binary .pow b x := by
  obtain ⟨b, hb, h⟩ := Option.bind_eq_some_iff.mp h
  obtain ⟨x, hx, h⟩ := Option.bind_eq_some_iff.mp h
  cases h
  exact ⟨b, x, hb, hx, rfl⟩

theorem Power.raised_tree {base : Primary σ} {exponent : σ} {b x : Expr}
    (hb : base.tree S = some b) (hx : S.tree exponent = some x) (gap : Gap) :
    (Power.nonterminal S).tree (.raised base gap exponent) = some (.binary .pow b x) := by
  show (base.tree S).bind _ = _
  rw [hb]
  show (S.tree exponent).bind _ = _
  rw [hx]
  rfl

theorem power_complete (hS : Starts S) (hread : Complete S FollowsPower n read)
    (hskip : Skips read) : Complete (Power.nonterminal S) FollowsPower n (power read) := by
  intro p r hr
  cases p with
  | plain base =>
    show Outcome (view (power read (base.text S ++ r))) _ _
    rw [view_power]
    refine Outcome.bind (primary_complete hS hread hskip base hr.1) (fun _ h => h) ?_
    rintro ⟨e, height, r'⟩ ⟨htree, hfits, hheight, hlow, hrest⟩
    simp only at htree hheight hlow hrest ⊢
    split
    · -- two stars do not follow a power
      exact (hr.2 _ (hrest.symm.trans ‹_›)).elim
    · exact ⟨htree, hfits, hheight, hlow, (dropBlank_dropBlank r').trans hrest⟩
  | raised base gap exponent =>
    have htext : (Power.nonterminal S).text (.raised base gap exponent) ++ r =
        base.text S ++ (gap.chars ++ '*' :: '*' :: (S.text exponent ++ r)) := raised_text ..
    have hfits : (Power.nonterminal S).nesting (.raised base gap exponent) ≤ n ↔
        base.nesting S ≤ n ∧ S.nesting exponent ≤ n := Nat.max_le
    rw [htext, view_power, hfits]
    refine Outcome.bind (primary_complete hS hread hskip base (follows_stars _ _)) ?_ ?_
    · refine fun fault hfault => hfault.mono And.left fun he => ?_
      obtain ⟨b, x, hb, -, rfl⟩ := Power.exists_of_raised he
      exact ⟨b, hb, Nat.le_succ_of_le (Nat.le_max_left _ _)⟩
    · rintro ⟨b, height, r'⟩ ⟨hb, hbase, hheight, -, hrest⟩
      have hstars : dropBlank r' = '*' :: '*' :: (S.text exponent ++ r) := by
        rw [hrest, dropBlank_gap, dropBlank_cons (by decide)]
      simp only at hb hheight ⊢
      subst hheight
      simp only [hstars]
      refine Outcome.bind (hread exponent hr) ?_ ?_
      · refine fun fault hfault => hfault.mono And.right fun he => ?_
        obtain ⟨b, x, -, hx, rfl⟩ := Power.exists_of_raised he
        exact ⟨x, hx, Nat.le_succ_of_le (Nat.le_max_right _ _)⟩
      · rintro ⟨x, height, r''⟩ ⟨hx, hexponent, hheight, -, hrest⟩
        simp only at hx hheight hrest ⊢
        subst hheight
        rw [Power.raised_tree hb hx]
        refine Outcome.bind (outcome_grow _ _) ?_ ?_
        · rintro fault ⟨hcause, hhigh⟩
          refine ⟨fun _ => hcause, fun he _ => ?_⟩
          cases he
          exact hhigh
        · rintro height ⟨rfl, hlow⟩
          exact ⟨rfl, ⟨hbase, hexponent⟩, rfl, hlow, hrest⟩

theorem outcome_neg (e : Expr) (u : List Char) :
    Outcome ((grow e.height u).bind fun h => .ok (Expr.neg e, h))
      (fun y => y.1 = .neg e ∧ y.2 = y.1.height ∧ y.1.height ≤ maxDepth)
      (fun fault => fault.cause = .nestedTooDeeply ∧ maxDepth < e.neg.height) := by
  refine Outcome.bind (outcome_grow _ _) (fun _ h => h) ?_
  rintro height ⟨rfl, hlow⟩
  exact ⟨rfl, rfl, hlow⟩

/-- A minus makes the tree higher unless it goes into a literal. -/
theorem outcome_negate (e : Expr) (u : List Char) :
    Outcome (negate e e.height u)
      (fun y => y.1 = negated e ∧ y.2 = y.1.height ∧ y.1.height ≤ maxDepth)
      (fun fault => fault.cause = .nestedTooDeeply ∧ maxDepth < (negated e).height) := by
  cases e with
  | literal v => exact ⟨rfl, rfl, one_le_maxDepth⟩
  | column c => exact outcome_neg (.column c) u
  | neg e => exact outcome_neg (.neg e) u
  | binary op l r => exact outcome_neg (.binary op l r) u
  | call f args => exact outcome_neg (.call f args) u

theorem height_le_negated (e : Expr) : e.height ≤ (negated e).height := by
  cases e with
  | literal v => exact Nat.le_refl _
  | column | neg | binary | call => exact Nat.le_succ _

end Levels

theorem minus_complete {n m : Nat} (g : Gap) (d : Signed m) {r : List Char}
    (hd : Outcome (view (Expr.Parser.signed n ((signedTerms m).text d ++ r)))
      (Reads ((signedTerms m).tree d) ((signedTerms m).nesting d ≤ n) r)
      (TooDeep ((signedTerms m).tree d) ((signedTerms m).nesting d ≤ n))) :
    Outcome (view (Expr.Parser.signed (n + 1)
        ((signedTerms (m + 1)).text (.minus g d) ++ r)))
      (Reads ((signedTerms (m + 1)).tree (.minus g d))
        ((signedTerms (m + 1)).nesting (.minus g d) ≤ n + 1) r)
      (TooDeep ((signedTerms (m + 1)).tree (.minus g d))
        ((signedTerms (m + 1)).nesting (.minus g d) ≤ n + 1)) := by
  have hminus : dropBlank ((signedTerms (m + 1)).text (.minus g d) ++ r) =
      '-' :: ((signedTerms m).text d ++ r) := by
    show dropBlank ((SignedTerm.minus g d).text (signedTerms m) ++ r) = _
    rw [minus_text, dropBlank_gap, dropBlank_cons (by decide)]
  have hfits : (signedTerms (m + 1)).nesting (.minus g d) ≤ n + 1 ↔
      (signedTerms m).nesting d ≤ n := Nat.succ_le_succ_iff
  rw [view_signed_succ, hfits]
  simp only [hminus]
  refine Outcome.bind hd ?_ ?_
  · refine fun fault hfault => hfault.mono id fun he => ?_
    obtain ⟨e, htree, rfl⟩ := Option.map_eq_some_iff.mp he
    exact ⟨e, htree, height_le_negated e⟩
  · -- a minus in front of a number is the number, and adds no height then
    rintro ⟨e, height, r'⟩ ⟨htree, hnesting, hheight, -, hrest⟩
    simp only at htree hheight hrest ⊢
    subst hheight
    have htree' : (signedTerms (m + 1)).tree (.minus g d) = some (negated e) := by
      show ((signedTerms m).tree d).map negated = _
      rw [htree]
      rfl
    rw [htree']
    refine Outcome.bind (outcome_negate e _) ?_ ?_
    · rintro fault ⟨hcause, hhigh⟩
      refine ⟨fun _ => hcause, fun he _ => ?_⟩
      cases he
      exact hhigh
    · rintro ⟨e', height⟩ ⟨rfl, hheight, hlow⟩
      exact ⟨rfl, hnesting, hheight, hlow, hrest⟩

/-- On every signed term, the reader with `n` of them allowed inside each other is right; the
induction is on the nesting of the phrases. -/
theorem signed_complete (m : Nat) :
    ∀ n, Complete (signedTerms m) FollowsPower n (Expr.Parser.signed n) := by
  induction m with
  | zero => exact fun n d => d.elim
  | succ m ih =>
    intro n d r hr
    cases n with
    | zero =>
      -- no signed term is allowed, and the phrase is at least one
      rw [view_signed_zero]
      refine ⟨fun _ => rfl, fun _ hfits => ?_⟩
      cases d with
      | minus g d => exact absurd hfits (Nat.not_succ_le_zero _)
      | plain g p => exact absurd hfits (Nat.not_succ_le_zero _)
    | succ n =>
      cases d with
      | minus g d => exact minus_complete g d (ih n d hr)
      | plain g p =>
        obtain ⟨c, s, htext, hc⟩ := p.exists_cons (signedTerms m)
        have hfront : dropBlank ((signedTerms (m + 1)).text (.plain g p) ++ r) =
            p.text (signedTerms m) ++ r := by
          show dropBlank ((SignedTerm.plain g p).text (signedTerms m) ++ r) = _
          rw [plain_text, dropBlank_gap, htext, List.cons_append,
            dropBlank_cons hc.isBlank_eq_false]
        have hfits : (signedTerms (m + 1)).nesting (.plain g p) ≤ n + 1 ↔
            p.nesting (signedTerms m) ≤ n := Nat.succ_le_succ_iff
        rw [view_signed_succ, hfits, hfront]
        split
        · -- a power does not begin with a minus
          rename_i t heq
          rw [htext] at heq
          exact absurd (List.cons.inj heq).1 (hc.ne (by decide) (by decide))
        · exact power_complete (starts_signedTerms m) (ih n) (signed_skips n) p hr

end FactorStudy.Grammar
