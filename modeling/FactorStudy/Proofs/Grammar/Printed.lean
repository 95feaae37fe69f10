import FactorStudy.Proofs.Decimal.Text
import FactorStudy.Proofs.Grammar.Parse

/-!
# Printed expressions

The printer puts in parentheses and minus signs that no author wrote, and the parser counts its
nesting on the text. Both can be said without a text: the printed form of a tree is a phrase, the
nesting of this phrase is a measure of the tree (`printedNesting`), and it denotes the tree that was
printed as long as all literals are finite (`Prints`). An infinite literal is printed as a word, and
a word that is not a column denotes nothing.

There is one lemma for each kind of node, and one induction on the tree at the end
(`exists_prints`). What the parser does with printed text is then what it does with a phrase
(`parse_render`).
-/

namespace FactorStudy

namespace Expr

open FactorStudy.Expr.Parser (isWindow)

def isLiteral : Expr → Bool
  | literal _ => true
  | _ => false

mutual

/-- Whether a tree is one that a text can have: a call has as many arguments as its function takes,
the last one a whole number where it is a window, and a minus over a literal is part of it. -/
def wellFormed : Expr → Bool
  | literal _ | column _ => true
  | neg e => !e.isLiteral && e.wellFormed
  | binary _ l r => l.wellFormed && r.wellFormed
  | call f args =>
    args.length == f.arity && (!f.hasWindow || args.getLast?.any isWindow) && allWellFormed args

def allWellFormed : List Expr → Bool
  | [] => true
  | e :: es => e.wellFormed && allWellFormed es

end

mutual

/-- Whether every literal is a finite number. -/
def isFinite : Expr → Bool
  | literal v => v.isFinite
  | column _ => true
  | neg e => e.isFinite
  | binary _ l r => l.isFinite && r.isFinite
  | call _ args => allFinite args

def allFinite : List Expr → Bool
  | [] => true
  | e :: es => e.isFinite && allFinite es

end

mutual

/-- How deeply signed terms are nested in the printed form. Every node opens a parenthesis, and a
minus and an exponent are signed terms of their own inside it. -/
def printedNesting : Expr → Nat
  | literal v => if Decimal.isNegative v then 3 else 1
  | column _ => 1
  | neg e => e.printedNesting + 2
  | binary .pow l r => max l.printedNesting (r.printedNesting + 1) + 1
  | binary _ l r => max l.printedNesting r.printedNesting + 1
  | call _ args => printedNestingAll args + 1

/-- The deepest nesting in a list of printed trees. -/
def printedNestingAll : List Expr → Nat
  | [] => 0
  | e :: es => max e.printedNesting (printedNestingAll es)

end

end Expr

namespace Grammar

open FactorStudy.Expr (maxDepth parse printedNestingAll allFinite allWellFormed)
open FactorStudy.Expr.Parser (isNameChar isWindow)

/-! ## The phrases of the printer -/

/-- The blank around operators and after commas. -/
def Gap.one : Gap where
  chars := [' ']
  blank c hc := by
    rw [List.mem_singleton.mp hc]
    decide

namespace Chain

variable {ops : List BinaryOp} {σ : Type} (S : Nonterminal σ)

def single (d : σ) : Chain ops σ := ⟨d, []⟩

def pair {op : BinaryOp} (hop : op ∈ ops) (d d' : σ) : Chain ops σ := ⟨d, [⟨Gap.one, op, hop, d'⟩]⟩

theorem single_text (d : σ) : (nonterminal ops S).text (single d) = S.text d := List.append_nil _

theorem single_tree (d : σ) : (nonterminal ops S).tree (single d) = S.tree d := by
  show (S.tree d).bind some = S.tree d
  cases S.tree d <;> rfl

theorem single_nesting (d : σ) : (nonterminal ops S).nesting (single d) = S.nesting d :=
  Nat.max_zero _

theorem pair_text {op : BinaryOp} (hop : op ∈ ops) (d d' : σ) :
    (nonterminal ops S).text (pair hop d d') =
      S.text d ++ ' ' :: (op.symbol.toList ++ S.text d') := by
  show S.text d ++ (' ' :: (op.symbol.toList ++ S.text d') ++ []) = _
  rw [List.append_nil]

theorem pair_tree {op : BinaryOp} (hop : op ∈ ops) (d d' : σ) :
    (nonterminal ops S).tree (pair hop d d') =
      (S.tree d).bind fun l => (S.tree d').map (Expr.binary op l) := by
  show ((S.tree d).bind fun l => ((S.tree d').map (Expr.binary op l)).bind some) = _
  simp only [Option.bind_fun_some]

theorem pair_nesting {op : BinaryOp} (hop : op ∈ ops) (d d' : σ) :
    (nonterminal ops S).nesting (pair hop d d') = max (S.nesting d) (S.nesting d') := by
  show max (S.nesting d) (max (S.nesting d') 0) = _
  rw [Nat.max_zero]

end Chain

/-- Whether a word begins and goes on as names do. -/
def isName : List Char → Bool
  | c :: s => (c.isAlpha || c == '_') && s.all isNameChar
  | [] => false

theorem exists_name_text {s : List Char} (h : isName s = true) : ∃ x : Name, x.text = s := by
  cases s with
  | nil => cases h
  | cons c s =>
    rw [isName, Bool.and_eq_true, Bool.or_eq_true, beq_iff_eq] at h
    exact ⟨⟨c, s, h.1, List.all_eq_true.mp h.2⟩, rfl⟩

theorem isName_builtin (f : Builtin) : isName f.name.toList = true := by
  rcases f with f | f | f | f | f | f <;> cases f <;> decide

theorem isName_column (c : Column) : isName c.name.toList = true := by
  cases c <;> decide

theorem Name.word_eq {x : Name} {w : String} (h : x.text = w.toList) : x.word = w := by
  rw [word, h, String.ofList_toList]

namespace Primary

variable {m : Nat}

/-- A primary as a signed term. -/
def signed (gap : Gap) (p : Primary (Signed m)) : Signed (m + 1) := SignedTerm.plain gap (.plain p)

/-- A signed term in parentheses. -/
def wrap (d : Signed m) : Primary (Signed m) := .group (Chain.single (Chain.single d)) Gap.nil

theorem wrap_text (d : Signed m) :
    (wrap d).text (signedTerms m) = '(' :: ((signedTerms m).text d ++ [')']) := by
  show '(' :: (_ ++ ([] ++ [')'])) = _
  rw [sums, Chain.single_text, Chain.single_text, List.nil_append]

theorem wrap_tree (d : Signed m) : (wrap d).tree (signedTerms m) = (signedTerms m).tree d := by
  show (sums (signedTerms m)).tree _ = _
  rw [sums, Chain.single_tree, Chain.single_tree]

theorem wrap_nesting (d : Signed m) :
    (wrap d).nesting (signedTerms m) = (signedTerms m).nesting d := by
  show (sums (signedTerms m)).nesting _ = _
  rw [sums, Chain.single_nesting, Chain.single_nesting]

/-- A primary after a minus, in parentheses. -/
def minus (p : Primary (Signed m)) : Primary (Signed (m + 2)) :=
  wrap (SignedTerm.minus Gap.nil (p.signed Gap.nil))

theorem minus_text (p : Primary (Signed m)) :
    p.minus.text (signedTerms (m + 2)) = '(' :: '-' :: (p.text (signedTerms m) ++ [')']) :=
  wrap_text _

theorem minus_tree (p : Primary (Signed m)) :
    p.minus.tree (signedTerms (m + 2)) = (p.tree (signedTerms m)).map negated :=
  wrap_tree _

theorem minus_nesting (p : Primary (Signed m)) :
    p.minus.nesting (signedTerms (m + 2)) = p.nesting (signedTerms m) + 2 :=
  wrap_nesting _

end Primary

/-- The primary is the printed form of the tree, and denotes it if all literals are finite. -/
structure Prints {m : Nat} (p : Primary (Signed m)) (e : Expr) : Prop where
  text : p.text (signedTerms m) = e.render.toList
  tree : p.tree (signedTerms m) = if e.isFinite then some e else none
  nesting : p.nesting (signedTerms m) + 1 = e.printedNesting

/-! ## Literals and columns -/

theorem exists_prints_column (m : Nat) (c : Column) :
    ∃ p : Primary (Signed m), Prints p (.column c) := by
  obtain ⟨x, hx⟩ := exists_name_text (isName_column c)
  refine ⟨.column x, hx, ?_, rfl⟩
  show (Column.named? x.word).map Expr.column = _
  rw [Name.word_eq hx, Column.named?_name]
  rfl

/-- A word that names no column. -/
theorem exists_unknown (m : Nat) {w : List Char} (hname : isName w = true)
    (hunknown : Column.named? (String.ofList w) = none) :
    ∃ p : Primary (Signed m), p.text (signedTerms m) = w ∧ p.tree (signedTerms m) = none ∧
      p.nesting (signedTerms m) = 0 := by
  obtain ⟨x, hx⟩ := exists_name_text hname
  refine ⟨.column x, hx, ?_, rfl⟩
  show (Column.named? x.word).map Expr.column = none
  rw [Name.word, hx, hunknown]
  rfl

/-- What is printed of a double after its minus: a number, or a word that denotes nothing. -/
theorem exists_magnitude (m : Nat) (v : Float) :
    ∃ p : Primary (Signed m),
      (Decimal.plain v).toList =
        (if Decimal.isNegative v then '-' :: p.text (signedTerms m) else p.text (signedTerms m)) ∧
      p.nesting (signedTerms m) = 0 ∧
      (v.isFinite = true → ∃ w, p.tree (signedTerms m) = some (.literal w) ∧
        v = if Decimal.isNegative v then -w else w) ∧
      (v.isFinite = false → p.tree (signedTerms m) = none) := by
  by_cases hfinite : v.isFinite = true
  · -- a finite double is printed as a number
    obtain ⟨t, htext, hworth⟩ := Decimal.exists_token_plain hfinite
    exact ⟨.number t, htext, rfl, fun _ => ⟨_, rfl, hworth⟩,
      fun h => absurd hfinite (by rw [h]; decide)⟩
  · by_cases hnan : v.isNaN = true
    · obtain ⟨p, htext, htree, hnesting⟩ :=
        exists_unknown m (w := ['N', 'a', 'N']) (by decide) (by decide)
      refine ⟨p, ?_, hnesting, fun h => absurd h hfinite, fun _ => htree⟩
      rw [Decimal.plain, if_pos hnan, Decimal.isNegative_of_isNaN hnan, htext]
      rfl
    · obtain ⟨p, htext, htree, hnesting⟩ :=
        exists_unknown m (w := ['i', 'n', 'f']) (by decide) (by decide)
      refine ⟨p, ?_, hnesting, fun h => absurd h hfinite, fun _ => htree⟩
      rw [Decimal.plain, if_neg hnan, if_neg hfinite, htext, Decimal.signed, String.toList_ofList]

theorem exists_prints_literal {m : Nat} (v : Float)
    (hfits : (Expr.literal v).printedNesting ≤ m + 1) :
    ∃ p : Primary (Signed m), Prints p (.literal v) := by
  rw [Expr.printedNesting] at hfits
  cases hsign : Decimal.isNegative v with
  | false =>
    obtain ⟨p, htext, hnesting, hfinite, hother⟩ := exists_magnitude m v
    rw [hsign] at htext hfinite
    refine ⟨p, ?_, ?_, ?_⟩
    · rw [Expr.render, hsign]
      exact htext.symm
    · rw [Expr.isFinite]
      cases h : v.isFinite with
      | false => exact hother h
      | true =>
        obtain ⟨w, htree, hw⟩ := hfinite h
        rw [htree, hw]
        rfl
    · rw [Expr.printedNesting, hsign, hnesting]
      rfl
  | true =>
    -- the printer puts a parenthesis around the minus, which costs two levels
    rw [hsign] at hfits
    obtain ⟨k, rfl⟩ : ∃ k, m = k + 2 := ⟨m - 2, by simp only [if_true] at hfits; omega⟩
    obtain ⟨p, htext, hnesting, hfinite, hother⟩ := exists_magnitude k v
    rw [hsign] at htext hfinite
    refine ⟨p.minus, ?_, ?_, ?_⟩
    · rw [p.minus_text, Expr.render, hsign]
      simp [htext]
    · rw [p.minus_tree, Expr.isFinite]
      cases h : v.isFinite with
      | false => rw [hother h]; rfl
      | true =>
        obtain ⟨w, htree, hw⟩ := hfinite h
        rw [htree, hw]
        rfl
    · rw [p.minus_nesting, Expr.printedNesting, hsign, hnesting]
      rfl

/-! ## Inner nodes -/

theorem Prints.neg {m : Nat} {p : Primary (Signed m)} {e : Expr} (h : Prints p e)
    (he : e.isLiteral = false) : Prints p.minus (.neg e) := by
  refine ⟨?_, ?_, ?_⟩
  · rw [p.minus_text, h.text, Expr.render]
    simp
  · have hneg : negated e = .neg e := by
      cases e with
      | literal v => cases he
      | _ => rfl
    rw [p.minus_tree, h.tree, Expr.isFinite]
    cases e.isFinite with
    | false => rfl
    | true => exact congrArg some hneg
  · rw [p.minus_nesting, Expr.printedNesting, ← h.nesting]

/-- Two signed terms joined by an operator, at the level of the operator. -/
theorem exists_joined {σ : Type} (S : Nonterminal σ) {op : BinaryOp} (hop : op ≠ .pow) (d d' : σ) :
    ∃ s : Sum σ, (sums S).text s = S.text d ++ ' ' :: (op.symbol.toList ++ S.text d') ∧
      (sums S).tree s = ((S.tree d).bind fun l => (S.tree d').map (Expr.binary op l)) ∧
      (sums S).nesting s = max (S.nesting d) (S.nesting d') := by
  -- sums are joined as products of one term each, products inside a sum of one product
  have hlevel : op ∈ sumOps ∨ op ∈ productOps := by
    cases op with
    | pow => exact absurd rfl hop
    | add | sub => exact Or.inl (by decide)
    | mul | div => exact Or.inr (by decide)
  rcases hlevel with hsum | hproduct
  · refine ⟨Chain.pair hsum (Chain.single d) (Chain.single d'), ?_, ?_, ?_⟩
    · rw [sums, Chain.pair_text, Chain.single_text, Chain.single_text]
    · rw [sums, Chain.pair_tree, Chain.single_tree, Chain.single_tree]
    · rw [sums, Chain.pair_nesting, Chain.single_nesting, Chain.single_nesting]
  · refine ⟨Chain.single (Chain.pair hproduct d d'), ?_, ?_, ?_⟩
    · rw [sums, Chain.single_text, Chain.pair_text]
    · rw [sums, Chain.single_tree, Chain.pair_tree]
    · rw [sums, Chain.single_nesting, Chain.pair_nesting]

theorem joined_tree {f g : Bool} (op : BinaryOp) (l r : Expr) :
    ((if f then some l else none).bind fun l => (if g then some r else none).map (Expr.binary op l)) =
      if f && g then some (.binary op l r) else none := by
  cases f <;> cases g <;> rfl

section Signed

variable {m : Nat} {p : Primary (Signed m)} {e : Expr} (h : Prints p e) (gap : Gap)

include h

theorem Prints.signed_text :
    (signedTerms (m + 1)).text (p.signed gap) = gap.chars ++ e.render.toList := congrArg _ h.text

theorem Prints.signed_tree :
    (signedTerms (m + 1)).tree (p.signed gap) = if e.isFinite then some e else none := h.tree

theorem Prints.signed_nesting :
    (signedTerms (m + 1)).nesting (p.signed gap) = e.printedNesting := h.nesting

end Signed

theorem printedNesting_binary {op : BinaryOp} (hop : op ≠ .pow) (l r : Expr) :
    (Expr.binary op l r).printedNesting = max l.printedNesting r.printedNesting + 1 := by
  cases op with
  | pow => exact absurd rfl hop
  | _ => rfl

theorem Prints.exists_binary {m : Nat} {p q : Primary (Signed m)} {l r : Expr} {op : BinaryOp}
    (hop : op ≠ .pow) (hl : Prints p l) (hr : Prints q r) :
    ∃ s : Primary (Signed (m + 1)), Prints s (.binary op l r) := by
  obtain ⟨s, htext, htree, hnesting⟩ :=
    exists_joined (signedTerms (m + 1)) hop (p.signed Gap.nil) (q.signed Gap.one)
  refine ⟨.group s Gap.nil, ?_, ?_, ?_⟩
  · show '(' :: (_ ++ ([] ++ [')'])) = _
    rw [htext, hl.signed_text, hr.signed_text, Expr.render]
    simp [Gap.nil, Gap.one]
  · show (sums (signedTerms (m + 1))).tree s = _
    rw [htree, hl.signed_tree, hr.signed_tree, joined_tree, Expr.isFinite]
  · show (sums (signedTerms (m + 1))).nesting s + 1 = _
    rw [hnesting, hl.signed_nesting, hr.signed_nesting, printedNesting_binary hop]

/-- An exponent is a signed term inside the power. -/
theorem Prints.exists_pow {m : Nat} {p : Primary (Signed (m + 1))} {q : Primary (Signed m)}
    {l r : Expr} (hl : Prints p l) (hr : Prints q r) :
    ∃ s : Primary (Signed (m + 2)), Prints s (.binary .pow l r) := by
  -- the base is a primary, and the exponent a signed term, one level further in
  let d : Signed (m + 2) := SignedTerm.plain Gap.nil (.raised p Gap.one (q.signed Gap.one))
  refine ⟨.wrap d, ?_, ?_, ?_⟩
  · rw [Primary.wrap_text]
    show '(' :: (p.text (signedTerms (m + 1)) ++
      ' ' :: '*' :: '*' :: (signedTerms (m + 1)).text (q.signed Gap.one) ++ [')']) = _
    rw [hl.text, hr.signed_text, Expr.render]
    simp [BinaryOp.symbol, Gap.one]
  · rw [Primary.wrap_tree, Expr.isFinite, ← joined_tree]
    show ((p.tree (signedTerms (m + 1))).bind fun b =>
      ((signedTerms (m + 1)).tree (q.signed Gap.one)).bind fun e =>
        some (Expr.binary .pow b e)) = _
    rw [hl.tree, hr.signed_tree]
    cases l.isFinite <;> cases r.isFinite <;> rfl
  · rw [Primary.wrap_nesting]
    show max (p.nesting (signedTerms (m + 1)))
      ((signedTerms (m + 1)).nesting (q.signed Gap.one)) + 1 + 1 = _
    rw [hr.signed_nesting, Expr.printedNesting, ← hl.nesting]
    omega

/-! ## Calls -/

/-- A primary as an argument. -/
def Primary.argument {m : Nat} (gap : Gap) (p : Primary (Signed m)) : Sum (Signed (m + 1)) :=
  Chain.single (Chain.single (p.signed gap))

/-- Arguments after the first one follow a comma and a blank. -/
def Primary.moreArgument {m : Nat} (p : Primary (Signed m)) : MoreArgument (Sum (Signed (m + 1))) :=
  ⟨Gap.nil, p.argument Gap.one⟩

section Argument

variable {m : Nat} {p : Primary (Signed m)} {e : Expr} (h : Prints p e) (gap : Gap)

include h

theorem Prints.argument_text :
    (sums (signedTerms (m + 1))).text (p.argument gap) = gap.chars ++ e.render.toList := by
  rw [Primary.argument, sums, Chain.single_text, Chain.single_text, h.signed_text]

theorem Prints.argument_tree :
    (sums (signedTerms (m + 1))).tree (p.argument gap) = if e.isFinite then some e else none := by
  rw [Primary.argument, sums, Chain.single_tree, Chain.single_tree, h.signed_tree]

theorem Prints.argument_nesting :
    (sums (signedTerms (m + 1))).nesting (p.argument gap) = e.printedNesting := by
  rw [Primary.argument, sums, Chain.single_nesting, Chain.single_nesting, h.signed_nesting]

end Argument

/-- What is printed of a list of arguments. -/
structure PrintsAll {τ : Type} (T : Nonterminal τ) (ds : List τ) (es : List Expr) : Prop where
  tree : ds.mapM T.tree = if allFinite es then some es else none
  nesting : T.nestingAll ds = printedNestingAll es

theorem PrintsAll.cons {m : Nat} {p : Primary (Signed m)} {e : Expr} (h : Prints p e) (gap : Gap)
    {ds : List (Sum (Signed (m + 1)))} {es : List Expr}
    (hs : PrintsAll (sums (signedTerms (m + 1))) ds es) :
    PrintsAll (sums (signedTerms (m + 1))) (p.argument gap :: ds) (e :: es) := by
  constructor
  · rw [List.mapM_cons, h.argument_tree, hs.tree, allFinite]
    cases e.isFinite <;> cases allFinite es <;> rfl
  · show max _ ((sums _).nestingAll ds) = _
    rw [h.argument_nesting, hs.nesting, printedNestingAll]

/-- An argument after the first, as it is printed. -/
def moreRendered (e : Expr) : List Char := ',' :: ' ' :: e.render.toList

/-- What is printed of the arguments after the first. -/
structure PrintsMore {m : Nat} (more : List (MoreArgument (Sum (Signed (m + 1)))))
    (es : List Expr) : Prop extends
    PrintsAll (sums (signedTerms (m + 1))) (more.map (·.argument)) es where
  text : more.flatMap (Arguments.moreText (sums (signedTerms (m + 1)))) = es.flatMap moreRendered

theorem PrintsMore.nil {m : Nat} : PrintsMore (m := m) [] [] := ⟨⟨rfl, rfl⟩, rfl⟩

theorem PrintsMore.cons {m : Nat} {p : Primary (Signed m)} {e : Expr} (h : Prints p e)
    {more : List (MoreArgument (Sum (Signed (m + 1))))} {es : List Expr} (hs : PrintsMore more es) :
    PrintsMore (p.moreArgument :: more) (e :: es) where
  toPrintsAll := hs.toPrintsAll.cons h Gap.one
  text := by
    rw [List.flatMap_cons, List.flatMap_cons, hs.text]
    show ',' :: (sums (signedTerms (m + 1))).text (p.argument Gap.one) ++ _ = _
    rw [h.argument_text]
    rfl

theorem intercalate_renderAll (es : List Expr) :
    ∀ e : Expr, (", ".intercalate (Expr.renderAll (e :: es))).toList =
      e.render.toList ++ es.flatMap moreRendered := by
  induction es with
  | nil => intro e; simp [Expr.renderAll]
  | cons e' es ih =>
    intro e
    rw [Expr.renderAll, Expr.renderAll, String.intercalate_cons_cons, ← Expr.renderAll]
    rw [String.toList_append, String.toList_append, ih e', List.flatMap_cons]
    simp [moreRendered]

theorem wellFormed_call {f : Builtin} {args : List Expr} :
    (Expr.call f args).wellFormed = true ↔
      (args.length = f.arity ∧ (f.hasWindow → args.getLast?.any isWindow)) ∧
        allWellFormed args = true := by
  rw [Expr.wellFormed, Bool.and_eq_true, Bool.and_eq_true, beq_iff_eq]
  cases f.hasWindow <;> simp

theorem Prints.exists_call {m : Nat} {p : Primary (Signed m)} {e : Expr} (h : Prints p e)
    {more : List (MoreArgument (Sum (Signed (m + 1))))} {es : List Expr} (hs : PrintsMore more es)
    {f : Builtin} (hcall : (e :: es).length = f.arity ∧
      (f.hasWindow → (e :: es).getLast?.any isWindow)) :
    ∃ s : Primary (Signed (m + 1)), Prints s (.call f (e :: es)) := by
  obtain ⟨x, hx⟩ := exists_name_text (isName_builtin f)
  have hall := hs.toPrintsAll.cons h Gap.nil
  refine ⟨.call x Gap.nil (.some (p.argument Gap.nil) more Gap.nil), ?_, ?_, ?_⟩
  · -- the text, then the tree, then how deep it is nested
    show x.text ++ ([] ++ '(' :: ((sums _).text (p.argument Gap.nil) ++
      (more.flatMap (Arguments.moreText (sums (signedTerms (m + 1)))) ++ ([] ++ [')'])))) = _
    rw [hx, h.argument_text, hs.text, Expr.render, String.toList_append, String.toList_append,
      String.toList_append, intercalate_renderAll]
    simp [Gap.nil]
  · show ((Builtin.named? x.word).bind fun f =>
      ((p.argument Gap.nil :: more.map (·.argument)).mapM (sums (signedTerms (m + 1))).tree).bind
        (Arguments.callOf f)) = _
    rw [Name.word_eq hx, Builtin.named?_name, hall.tree, Expr.isFinite]
    cases allFinite (e :: es) with
    | false => rfl
    | true => exact if_pos hcall
  · show (sums (signedTerms (m + 1))).nestingAll (p.argument Gap.nil :: more.map (·.argument)) + 1 = _
    rw [hall.nesting, Expr.printedNesting]

/-! ## Trees -/

theorem one_le_printedNesting (e : Expr) : 1 ≤ e.printedNesting := by
  cases e with
  | literal v =>
    rw [Expr.printedNesting]
    split <;> decide
  | column c => exact Nat.le_refl _
  | neg e => exact Nat.succ_pos _
  | binary op l r => cases op <;> exact Nat.succ_pos _
  | call f args => exact Nat.succ_pos _

mutual

/-- Every tree that a text can have is printed as a phrase. -/
theorem exists_prints (e : Expr) (he : e.wellFormed = true) {m : Nat}
    (hfits : e.printedNesting ≤ m + 1) : ∃ p : Primary (Signed m), Prints p e := by
  match e with
  | .literal v => exact exists_prints_literal v hfits
  | .column c => exact exists_prints_column m c
  | .neg e =>
    rw [Expr.wellFormed, Bool.and_eq_true, Bool.not_eq_true'] at he
    rw [Expr.printedNesting] at hfits
    have hpos := one_le_printedNesting e
    obtain ⟨k, rfl⟩ : ∃ k, m = k + 2 := ⟨m - 2, by omega⟩
    obtain ⟨p, hp⟩ := exists_prints e he.2 (m := k) (by omega)
    exact ⟨p.minus, hp.neg he.1⟩
  | .binary op l r =>
    rw [Expr.wellFormed, Bool.and_eq_true] at he
    have hpos := one_le_printedNesting r
    by_cases hop : op = .pow
    · -- the base stands one level lower than the exponent
      subst hop
      rw [Expr.printedNesting] at hfits
      obtain ⟨k, rfl⟩ : ∃ k, m = k + 2 := ⟨m - 2, by omega⟩
      obtain ⟨p, hp⟩ := exists_prints l he.1 (m := k + 1) (by omega)
      obtain ⟨q, hq⟩ := exists_prints r he.2 (m := k) (by omega)
      exact hp.exists_pow hq
    · rw [printedNesting_binary hop] at hfits
      obtain ⟨k, rfl⟩ : ∃ k, m = k + 1 := ⟨m - 1, by omega⟩
      obtain ⟨p, hp⟩ := exists_prints l he.1 (m := k) (by omega)
      obtain ⟨q, hq⟩ := exists_prints r he.2 (m := k) (by omega)
      exact hp.exists_binary hop hq
  | .call f [] =>
    -- every function takes an argument
    exact absurd (wellFormed_call.mp he).1.1 (Nat.ne_of_lt (arity_pos f))
  | .call f (e :: es) =>
    obtain ⟨hcall, hargs⟩ := wellFormed_call.mp he
    rw [allWellFormed, Bool.and_eq_true] at hargs
    rw [Expr.printedNesting, printedNestingAll] at hfits
    have hpos := one_le_printedNesting e
    obtain ⟨k, rfl⟩ : ∃ k, m = k + 1 := ⟨m - 1, by omega⟩
    obtain ⟨p, hp⟩ := exists_prints e hargs.1 (m := k) (by omega)
    obtain ⟨more, hmore⟩ := exists_prints_more es hargs.2 (m := k) (by omega)
    exact hp.exists_call hmore hcall

/-- The same of the arguments after the first. -/
theorem exists_prints_more (es : List Expr) (hes : allWellFormed es = true) {m : Nat}
    (hfits : printedNestingAll es ≤ m + 1) :
    ∃ more : List (MoreArgument (Sum (Signed (m + 1)))), PrintsMore more es := by
  match es with
  | [] => exact ⟨[], PrintsMore.nil⟩
  | e :: es =>
    rw [allWellFormed, Bool.and_eq_true] at hes
    rw [printedNestingAll] at hfits
    obtain ⟨p, hp⟩ := exists_prints e hes.1 (m := m) (by omega)
    obtain ⟨more, hmore⟩ := exists_prints_more es hes.2 (m := m) (by omega)
    exact ⟨p.moreArgument :: more, hmore.cons hp⟩

end

mutual

/-- A tree is no higher than its printed form is nested. -/
theorem height_le_printedNesting (e : Expr) : e.height ≤ e.printedNesting := by
  match e with
  | .literal v => exact one_le_printedNesting (.literal v)
  | .column c => exact Nat.le_refl _
  | .neg e =>
    have he := height_le_printedNesting e
    rw [Expr.height, Expr.printedNesting]
    omega
  | .binary op l r =>
    have hl := height_le_printedNesting l
    have hr := height_le_printedNesting r
    -- a power is printed in parentheses of its own
    by_cases hop : op = .pow
    · subst hop
      rw [Expr.height, Expr.printedNesting]
      omega
    · rw [Expr.height, printedNesting_binary hop]
      omega
  | .call f args =>
    have hargs := heightAll_le_printedNestingAll args
    rw [Expr.height, Expr.printedNesting]
    omega

theorem heightAll_le_printedNestingAll (es : List Expr) :
    Expr.heightAll es ≤ printedNestingAll es := by
  match es with
  | [] => exact Nat.le_refl _
  | e :: es =>
    have he := height_le_printedNesting e
    have hes := heightAll_le_printedNestingAll es
    rw [Expr.heightAll, printedNestingAll]
    omega

end

/-! ## The parser on printed text -/

/-- Printed text has a derivation, and it denotes the tree that was printed, or nothing. -/
theorem exists_derivation_render {e : Expr} (he : e.wellFormed = true) :
    ∃ (n : Nat) (d : Derivation n), d.text = e.render.toList ∧
      d.tree = (if e.isFinite then some e else none) ∧ d.nesting = e.printedNesting := by
  obtain ⟨p, hp⟩ := exists_prints e he (Nat.le_succ e.printedNesting)
  refine ⟨_, ⟨p.argument Gap.nil, Gap.nil⟩, ?_, hp.argument_tree Gap.nil,
    hp.argument_nesting Gap.nil⟩
  show (sums _).text (p.argument Gap.nil) ++ [] = _
  rw [hp.argument_text, List.append_nil]
  rfl

/-- What becomes of printed text, with the tree it denotes or without. -/
theorem outcome_parse_render {e : Expr} (he : e.wellFormed = true) :
    Outcome (parse e.render)
      (fun e' => e' = e ∧ e.isFinite = true ∧ e.printedNesting ≤ maxDepth)
      (fun err => e.isFinite = true →
        err.cause = .nestedTooDeeply ∧ maxDepth < e.printedNesting) := by
  obtain ⟨n, d, htext, htree, hnesting⟩ := exists_derivation_render he
  have houtcome := parse_complete d htext
  rw [htree, hnesting] at houtcome
  refine houtcome.mono ?_ ?_
  · rintro e' ⟨hsome, hfits, -⟩
    split at hsome
    · rename_i hfinite
      exact ⟨(Option.some.inj hsome).symm, hfinite, hfits⟩
    · cases hsome
  · intro err herr hfinite
    obtain ⟨hcause, hhigh⟩ := herr e (if_pos hfinite)
    refine ⟨hcause, Nat.lt_of_not_le fun hfits => ?_⟩
    -- the height is within the limit when the nesting is
    exact Nat.not_lt_of_le (Nat.le_trans (height_le_printedNesting e) hfits) (hhigh hfits)

/-- **Printing is inverted by parsing.** The printed form of a tree with finite literals reads back
as that tree while it is nested within the limit, and beyond the limit it is turned down for its
nesting.

A derivation is built along the tree, with the printed text as its own (`Prints`), and the grammar
is complete for derivations. That a literal comes back to the bit is the shortest decimal being read
as the double that it was found for. -/
theorem parse_render {e : Expr} (he : e.wellFormed = true) (hfinite : e.isFinite = true) :
    (e.printedNesting ≤ maxDepth → parse e.render = .ok e) ∧
    (maxDepth < e.printedNesting →
      ∃ err, parse e.render = .error err ∧ err.cause = .nestedTooDeeply ∧
        err.cause.isSemantic = false ∧ err.cause.message = "expression nested too deeply") := by
  have houtcome := outcome_parse_render he
  cases hp : parse e.render with
  | ok e' =>
    rw [hp] at houtcome
    obtain ⟨rfl, -, hfits⟩ := houtcome
    exact ⟨fun _ => rfl, fun hdeep => absurd hfits (Nat.not_le_of_lt hdeep)⟩
  | error err =>
    rw [hp] at houtcome
    obtain ⟨hcause, hdeep⟩ := houtcome hfinite
    refine ⟨fun hfits => absurd hfits (Nat.not_le_of_lt hdeep), fun _ => ⟨err, rfl, hcause, ?_⟩⟩
    rw [hcause]
    exact ⟨rfl, rfl⟩

/-- A trailing mean of an inverse power, under `n` minus signs. -/
def negatedMean : Nat → Expr
  | 0 => .call (.rolling .mean) [.binary .pow (.column .close) (.literal (-1.5)), .literal 5]
  | n + 1 => .neg (negatedMean n)

/-- In a sum it stands one level deeper. -/
def meanPlusClose : Expr := .binary .add (negatedMean 125) (.column .close)

theorem parse_render_negatedMean :
    ((negatedMean 125).wellFormed = true ∧ (negatedMean 125).isFinite = true ∧
      (negatedMean 125).printedNesting = maxDepth ∧
      parse (negatedMean 125).render = .ok (negatedMean 125)) ∧
    (meanPlusClose.wellFormed = true ∧ meanPlusClose.isFinite = true ∧
      meanPlusClose.printedNesting = maxDepth + 1 ∧
      ∃ err, parse meanPlusClose.render = .error err ∧ err.cause = .nestedTooDeeply ∧
        err.cause.isSemantic = false ∧ err.cause.message = "expression nested too deeply") := by
  have he : (negatedMean 125).wellFormed = true := by decide +kernel
  have hfinite : (negatedMean 125).isFinite = true := by decide +kernel
  have hfits : (negatedMean 125).printedNesting = maxDepth := by decide +kernel
  have he' : meanPlusClose.wellFormed = true := by decide +kernel
  have hfinite' : meanPlusClose.isFinite = true := by decide +kernel
  have hdeep : meanPlusClose.printedNesting = maxDepth + 1 := by decide +kernel
  exact ⟨⟨he, hfinite, hfits, (parse_render he hfinite).1 (Nat.le_of_eq hfits)⟩,
    he', hfinite', hdeep, (parse_render he' hfinite').2 (Nat.le_of_eq hdeep.symm)⟩

end Grammar

end FactorStudy
