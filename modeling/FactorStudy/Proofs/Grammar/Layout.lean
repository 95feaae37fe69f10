import FactorStudy.Proofs.Grammar.Longest
import FactorStudy.Proofs.Grammar.Parse

/-!
# Blanks between tokens do not matter

The parser works on the text itself, passes over blanks in a dozen places, and looks at raw
characters in others. Still it sees nothing of a text but its tokens: on two texts with the same
tokens (`Alike`) every reader does the same (`Steady`). It takes the same tree and leaves texts
that are alike again, or it fails for the same reason; only the place of a fault may differ, and the
text that is quoted as left over at the very end.

A reader that begins at a token is given two texts that begin with the same one (`Meet`). What it
does there depends on which token that is, and that is settled by exhibiting the longest token of
one text, which is then the one both begin with (`Meet.exists_of_longest`).
-/

namespace FactorStudy.Grammar

open Text (isBlank dropBlank)
open Decimal (readNumeral?)
open FactorStudy.Expr (maxDepth parse)
open Expr.Parser

/-! ## Texts with the same tokens -/

/-- Two texts with the same tokens. -/
def Alike (s t : List Char) : Prop := ∃ ts, Tokens s ts ∧ Tokens t ts

/-- Both texts have come to the same token, and are alike behind it, or both are at an end. -/
inductive Meet : List Char → List Char → Prop
  | done : Meet [] []
  | next {token r r' : List Char} (h : Longest token r) (h' : Longest token r')
      (hrest : Alike r r') : Meet (token ++ r) (token ++ r')

theorem Alike.symm {s t : List Char} (h : Alike s t) : Alike t s :=
  h.imp fun _ h => h.symm

theorem Alike.meet {s t : List Char} (h : Alike s t) : Meet (dropBlank s) (dropBlank t) := by
  obtain ⟨ts, hs, ht⟩ := h
  cases ts with
  | nil =>
    rw [hs.dropBlank_eq_nil, ht.dropBlank_eq_nil]
    exact .done
  | cons token ts =>
    obtain ⟨r, hr, hlongest, hrest⟩ := hs.exists_rest
    obtain ⟨r', hr', hlongest', hrest'⟩ := ht.exists_rest
    rw [hr, hr']
    exact .next hlongest hlongest' ⟨ts, hrest, hrest'⟩

/-- The signs of operators and calls, stars apart. Each is a token whatever follows it. -/
def signs : List Char := ['+', '-', '/', '(', ')', ',']

theorem longest_sign {c : Char} (hc : c ∈ signs) (r : List Char) : Longest [c] r := by
  obtain ⟨hblank, hname, hnumber, hstar⟩ : isBlank c = false ∧ isNameChar c = false ∧
      ¬ (c.isDigit = true ∨ c = '.') ∧ c ≠ '*' := by
    simp only [signs, List.mem_cons, List.not_mem_nil, or_false] at hc
    rcases hc with rfl | rfl | rfl | rfl | rfl | rfl <;> decide
  exact longest_single hblank hname (readNumeral?_eq_none hnumber r)
    fun u hu => hstar (List.cons.inj hu).1

namespace Meet

variable {s t : List Char}

theorem symm (h : Meet s t) : Meet t s := by
  cases h with
  | done => exact .done
  | next h h' hrest => exact .next h' h hrest.symm

theorem alike (h : Meet s t) : Alike s t := by
  cases h with
  | done => exact ⟨[], .nil Gap.nil, .nil Gap.nil⟩
  | next h h' hrest =>
    obtain ⟨ts, hr, hr'⟩ := hrest
    exact ⟨_ :: ts, .cons Gap.nil h hr, .cons Gap.nil h' hr'⟩

theorem head? (h : Meet s t) : s.head? = t.head? := by
  cases h with
  | done => rfl
  | next h _ _ =>
    obtain ⟨c, u, rfl, -⟩ := h.isToken.exists_cons
    rfl

/-- The longest token at the front of one text is the one they have both come to. -/
theorem exists_of_longest {token r : List Char} (hlongest : Longest token r)
    (h : Meet (token ++ r) t) : ∃ r', t = token ++ r' ∧ Longest token r' ∧ Alike r r' := by
  generalize hs : token ++ r = s at h
  cases h with
  | done =>
    have hpos := hlongest.isToken.length_pos
    rw [(List.append_eq_nil_iff.mp hs).1] at hpos
    exact absurd hpos (Nat.lt_irrefl 0)
  | next h h' hrest =>
    obtain ⟨rfl, rfl⟩ := hlongest.unique h hs
    exact ⟨_, rfl, h', hrest⟩

theorem exists_of_sign {c : Char} (h : Meet (c :: s) t) (hc : c ∈ signs) :
    ∃ t', t = c :: t' ∧ Alike s t' := by
  obtain ⟨t', rfl, -, halike⟩ := exists_of_longest (longest_sign hc s) h
  exact ⟨t', rfl, halike⟩

/-- A sign that is not next in one text is not next in the other. -/
theorem ne_sign {c : Char} (h : Meet s t) (hc : c ∈ signs) (hs : ∀ u, s ≠ c :: u)
    (u : List Char) : t ≠ c :: u := by
  rintro rfl
  obtain ⟨s', rfl, -⟩ := h.symm.exists_of_sign hc
  exact hs s' rfl

theorem exists_of_stars (h : Meet ('*' :: '*' :: s) t) :
    ∃ t', t = '*' :: '*' :: t' ∧ Alike s t' := by
  obtain ⟨t', rfl, -, halike⟩ := exists_of_longest (longest_stars s) h
  exact ⟨t', rfl, halike⟩

theorem ne_stars (h : Meet s t) (hs : ∀ u, s ≠ '*' :: '*' :: u) (u : List Char) :
    t ≠ '*' :: '*' :: u := by
  rintro rfl
  obtain ⟨s', rfl, -⟩ := h.symm.exists_of_stars
  exact hs s' rfl

/-- A star that is no sign of powers in one text is none in the other. -/
theorem exists_of_star (h : Meet ('*' :: s) t) (hs : ∀ u, s ≠ '*' :: u) :
    ∃ t', t = '*' :: t' ∧ (∀ u, t' ≠ '*' :: u) ∧ Alike s t' := by
  have hlongest : Longest ['*'] s := longest_single (by decide) (by decide)
    (readNumeral?_eq_none (by decide) s) fun u hu => hs u (List.cons.inj hu).2
  obtain ⟨t', rfl, hlongest', halike⟩ := exists_of_longest hlongest h
  refine ⟨t', rfl, ?_, halike⟩
  rintro u rfl
  exact absurd (hlongest'.le .stars ⟨u, rfl⟩) (by decide)

theorem exists_of_number {r : List Char} {n : Decimal.Numeral} (h : Meet s t)
    (hs : readNumeral? s = some (n, r)) : ∃ r', readNumeral? t = some (n, r') ∧ Alike r r' := by
  obtain ⟨token, rfl, rfl, hlongest⟩ := longest_number hs
  obtain ⟨r', rfl, hlongest', halike⟩ := exists_of_longest hlongest h
  exact ⟨r', readNumeral?_of_longest hlongest', halike⟩

end Meet

/-! ## Steps that agree -/

/-- Both steps succeed with results in the given relation, or both fail for the same reason. -/
inductive Agree {α β : Type} (R : α → β → Prop) : Except Fault α → Except Fault β → Prop
  | ok {a : α} {b : β} (h : R a b) : Agree R (.ok a) (.ok b)
  | error {f g : Fault} (h : f.cause = g.cause) : Agree R (.error f) (.error g)

theorem Agree.bind {α β α' β' : Type} {R : α → β → Prop} {R' : α' → β' → Prop}
    {x : Except Fault α} {y : Except Fault β} {f : α → Except Fault α'} {g : β → Except Fault β'}
    (h : Agree R x y) (hfg : ∀ {a b}, x = .ok a → R a b → Agree R' (f a) (g b)) :
    Agree R' (x.bind f) (y.bind g) := by
  cases h with
  | ok h => exact hfg rfl h
  | error h => exact .error h

/-- The same tree of the same height, before texts that are alike. -/
structure Same (x y : Expr × Nat × List Char) : Prop where
  expr : x.1 = y.1
  height : x.2.1 = y.2.1
  rest : Alike x.2.2 y.2.2

/-- A reader that does the same on all texts with the same tokens. -/
def Steady (read : Reader) : Prop :=
  ∀ {s t}, Alike s t → Agree Same (view (read s)) (view (read t))

/-- The same of a reader that begins at a token. -/
def SteadyAt (read : Reader) : Prop :=
  ∀ {s t}, Meet s t → Agree Same (view (read s)) (view (read t))

theorem agree_grow (child : Nat) (u u' : List Char) : Agree Eq (grow child u) (grow child u') := by
  unfold grow
  split
  · exact .ok rfl
  · exact .error rfl

/-! ## Chains -/

/-- An operator that is read from one of two texts at the same token is read from the other. -/
def OperatorSteady (operator : Operator) : Prop :=
  ∀ {s t op r}, Meet s t → operator s = some (op, r) →
    ∃ r', operator t = some (op, r') ∧ Alike r.1 r'.1

theorem sumOperator_steady : OperatorSteady sumOperator := by
  intro s t op r h hs
  unfold sumOperator at hs
  split at hs
  · cases hs
    obtain ⟨t', rfl, halike⟩ := h.exists_of_sign (by decide)
    exact ⟨⟨t', by simp⟩, rfl, halike⟩
  · cases hs
    obtain ⟨t', rfl, halike⟩ := h.exists_of_sign (by decide)
    exact ⟨⟨t', by simp⟩, rfl, halike⟩
  · cases hs

theorem productOperator_steady : OperatorSteady productOperator := by
  intro s t op r h hs
  unfold productOperator at hs
  split at hs
  · cases hs
  · rename_i s hstars
    cases hs
    obtain ⟨t', rfl, hstars', halike⟩ := h.exists_of_star hstars
    refine ⟨⟨t', by simp⟩, ?_, halike⟩
    rw [productOperator]
    exact fun u hu => hstars' u hu
  · cases hs
    obtain ⟨t', rfl, halike⟩ := h.exists_of_sign (by decide)
    exact ⟨⟨t', by simp⟩, rfl, halike⟩
  · cases hs

theorem OperatorSteady.eq_none {operator : Operator} (hop : OperatorSteady operator)
    {s t : List Char} (h : Meet s t) (hs : operator s = none) : operator t = none := by
  cases ht : operator t with
  | none => rfl
  | some found =>
    obtain ⟨_, hs', -⟩ := hop h.symm ht
    rw [hs] at hs'
    cases hs'

section Chain

variable {operator : Operator} {operand : Reader}

/-- The links of a chain; the induction is on what is left of the first text. -/
theorem chainView_steady (hop : OperatorSteady operator) (hread : Steady operand) (n : Nat) :
    ∀ {s t : List Char} (left : Expr) (height : Nat), s.length = n → Alike s t →
      Agree Same (chainView operator operand left height s)
        (chainView operator operand left height t) := by
  induction n using Nat.strongRecOn with
  | ind n ih =>
    intro s t left height hn halike
    -- past the blanks both texts are at the same token, an operator of the level or not
    have hmeet := halike.meet
    cases hs : operator (dropBlank s) with
    | none =>
      rw [chainView_none hs, chainView_none (hop.eq_none hmeet hs)]
      exact .ok ⟨rfl, rfl, hmeet.alike⟩
    | some found =>
      obtain ⟨op, r⟩ := found
      obtain ⟨r', ht, hrest⟩ := hop hmeet hs
      rw [chainView_some hs, chainView_some ht]
      refine (hread hrest).bind ?_
      rintro ⟨right, h₁, u⟩ ⟨right', h₁', u'⟩ hx ⟨rfl, rfl, hu⟩
      refine (agree_grow _ _ _).bind ?_
      rintro height' _ - rfl
      refine ih u.length ?_ _ _ rfl hu
      -- the operator and its operand have been taken from the text
      have hlt := length_lt_of_view hx
      have hr := r.2
      have hle := Text.length_dropBlank_le s
      simp only at hlt
      omega

theorem chain_steady (hop : OperatorSteady operator) (hread : Steady operand) :
    Steady (chain operator operand) := by
  intro s t halike
  rw [view_chain, view_chain]
  refine (hread halike).bind ?_
  rintro ⟨first, height, r⟩ ⟨_, _, r'⟩ - ⟨rfl, rfl, hrest⟩
  exact chainView_steady hop hread _ first height rfl hrest

end Chain

section Levels

variable {read : Reader}

theorem sum_steady (hread : Steady read) : Steady (Expr.Parser.sum read) :=
  chain_steady sumOperator_steady (chain_steady productOperator_steady hread)

/-! ## Primaries -/

theorem number_steady : SteadyAt number := by
  intro s t h
  rw [view_number, view_number]
  cases hs : readNumeral? s with
  | some x =>
    obtain ⟨r', ht, hrest⟩ := h.exists_of_number hs
    rw [ht]
    exact .ok ⟨rfl, rfl, hrest⟩
  | none =>
    cases ht : readNumeral? t with
    | none => exact .error rfl
    | some y =>
      obtain ⟨_, hs', -⟩ := h.symm.exists_of_number ht
      exact absurd (hs.symm.trans hs') (by simp)

theorem expectView_steady {c : Char} (hc : c ∈ signs) {s t : List Char}
    (halike : Alike s t) : Agree Alike (expectView c s) (expectView c t) := by
  have hmeet := halike.meet
  rw [expectView, expectView]
  generalize dropBlank s = u at hmeet ⊢
  generalize dropBlank t = u' at hmeet ⊢
  have hhead := hmeet.head?
  rcases u with _ | ⟨d, u⟩ <;> rcases u' with _ | ⟨d', u'⟩
  · exact .error rfl
  · cases hhead
  · cases hhead
  · obtain rfl : d = d' := Option.some.inj hhead
    by_cases hd : d = c
    · subst hd
      obtain ⟨_, heq, hrest⟩ := hmeet.exists_of_sign hc
      obtain ⟨-, rfl⟩ := List.cons.inj heq
      simp only [if_true]
      exact .ok hrest
    · simp only [if_neg hd]
      exact .error rfl

theorem parenthesized_steady (hread : Steady read) : Steady (parenthesized read) := by
  intro s t halike
  rw [view_parenthesized, view_parenthesized]
  refine (sum_steady hread halike).bind ?_
  rintro ⟨e, height, r⟩ ⟨_, _, r'⟩ - ⟨rfl, rfl, hrest⟩
  exact (expectView_steady (by decide) hrest).bind fun _ h => .ok ⟨rfl, rfl, h⟩

/-- The same arguments with the same heights, before texts that are alike. -/
structure SameArguments (x y : List Argument × List Char) : Prop where
  exprs : x.1.map (·.expr) = y.1.map (·.expr)
  heights : x.1.map (·.height) = y.1.map (·.height)
  rest : Alike x.2 y.2

/-- The arguments of a call; the induction is on what is left of the first text. -/
theorem argumentsView_steady {argument : Reader} (hread : Steady argument) (n : Nat) :
    ∀ {s t : List Char}, s.length = n → Alike s t →
      Agree SameArguments (argumentsView argument s) (argumentsView argument t) := by
  induction n using Nat.strongRecOn with
  | ind n ih =>
    intro s t hn halike
    rw [argumentsView_eq, argumentsView_eq]
    refine (hread halike.meet.alike).bind ?_
    rintro ⟨e, height, r⟩ ⟨_, _, r'⟩ hx ⟨rfl, rfl, hrest⟩
    have hmeet := Alike.meet hrest
    simp only
    split
    · -- a comma
      rename_i more hcomma
      rw [hcomma] at hmeet
      obtain ⟨more', hcomma', hmore⟩ := hmeet.exists_of_sign (by decide)
      simp only [hcomma']
      refine (ih more.length ?_ rfl hmore).bind ?_
      · have h₁ := length_lt_of_view hx
        have h₂ := Text.length_dropBlank_le s
        have h₃ := Text.length_dropBlank_le r
        rw [hcomma, List.length_cons] at h₃
        simp only at h₁
        omega
      · rintro ⟨args, u⟩ ⟨args', u'⟩ - ⟨hexprs, hheights, hu⟩
        exact .ok ⟨congrArg (e :: ·) hexprs, congrArg (height :: ·) hheights, hu⟩
    · -- the closing parenthesis
      rename_i u hclose
      rw [hclose] at hmeet
      obtain ⟨u', hclose', hu⟩ := hmeet.exists_of_sign (by decide)
      simp only [hclose']
      exact .ok ⟨rfl, rfl, hu⟩
    · -- neither, in one text and so in the other
      rename_i hcomma hclose
      split
      · exact (hmeet.ne_sign (by decide) hcomma _ ‹_›).elim
      · exact (hmeet.ne_sign (by decide) hclose _ ‹_›).elim
      · exact .error (congrArg (ParseCause.expected _) hmeet.head?)

theorem argumentListView_steady {argument : Reader} (hread : Steady argument) {s t : List Char}
    (halike : Alike s t) :
    Agree SameArguments (argumentListView argument s) (argumentListView argument t) := by
  have hmeet := halike.meet
  rw [argumentListView_eq, argumentListView_eq]
  split
  · rename_i r hclose
    rw [hclose] at hmeet
    obtain ⟨r', hclose', hrest⟩ := hmeet.exists_of_sign (by decide)
    simp only [hclose']
    exact .ok ⟨rfl, rfl, hrest⟩
  · rename_i hclose
    split
    · exact (hmeet.ne_sign (by decide) hclose _ ‹_›).elim
    · exact argumentsView_steady hread _ rfl halike

/-- Where the arguments stand makes no difference to the call. -/
theorem agree_finishCall (f : Builtin) {args args' : List Argument}
    (hexprs : args.map (·.expr) = args'.map (·.expr))
    (hheights : args.map (·.height) = args'.map (·.height)) (start start' : List Char) :
    Agree Eq (finishCall f args start) (finishCall f args' start') := by
  have hlength : args.length = args'.length := by
    simpa only [List.length_map] using congrArg List.length hexprs
  -- the call is built from the expressions and heights alone
  have hnode : Agree Eq
      ((grow ((args.map (·.height)).foldl max 0) start).bind fun height =>
        .ok (Expr.call f (args.map (·.expr)), height))
      ((grow ((args'.map (·.height)).foldl max 0) start').bind fun height =>
        .ok (Expr.call f (args'.map (·.expr)), height)) := by
    rw [hexprs, hheights]
    refine (agree_grow _ _ _).bind ?_
    rintro height _ - rfl
    exact .ok rfl
  have hlast : args.getLast?.map (·.expr) = args'.getLast?.map (·.expr) := by
    rw [← List.getLast?_map, ← List.getLast?_map, hexprs]
  unfold finishCall
  rw [← hlength]
  split
  · exact .error rfl
  · cases f.hasWindow with
    | false => exact hnode
    | true =>
      simp only [if_true]
      cases hargs : args.getLast? with
      | none =>
        rw [hargs] at hlast
        rw [Option.map_eq_none_iff.mp hlast.symm]
        exact hnode
      | some last =>
        rw [hargs] at hlast
        obtain ⟨last', hargs', hexpr⟩ := Option.map_eq_some_iff.mp hlast.symm
        simp only [hargs', hexpr]
        cases isWindow last.expr with
        | true => exact hnode
        | false => exact .error rfl

/-- A name with the blanks behind it, as a call or a column. -/
theorem agree_name (hread : Steady read) (x : Name) {r r' : List Char}
    (hr : StopsAt isNameChar r) (hr' : StopsAt isNameChar r') (halike : Alike r r') :
    Agree Same (view (name read (x.text ++ r))) (view (name read (x.text ++ r'))) := by
  have hmeet := halike.meet
  rw [view_name_text x hr, view_name_text x hr']
  split
  · rename_i inside hparen
    rw [hparen] at hmeet
    obtain ⟨inside', hparen', hinside⟩ := hmeet.exists_of_sign (by decide)
    simp only [hparen']
    cases Builtin.named? x.word with
    | none => exact .error rfl
    | some f =>
      refine (argumentListView_steady (sum_steady hread) hinside).bind ?_
      rintro ⟨args, u⟩ ⟨args', u'⟩ - ⟨hexprs, hheights, hu⟩
      refine (agree_finishCall f hexprs hheights _ _).bind ?_
      rintro y _ - rfl
      exact .ok ⟨rfl, rfl, hu⟩
  · rename_i hparen
    -- the other text has no parenthesis there either, and so the name is a column's in both
    have hparen' := hmeet.ne_sign (by decide) hparen
    cases Column.named? x.word with
    | none =>
      simp only
      exact .error rfl
    | some c =>
      simp only
      exact .ok ⟨rfl, rfl, hmeet.alike⟩

theorem name_steady (hread : Steady read) {c : Char} (hc : c.isAlpha = true ∨ c = '_')
    {s t : List Char} (h : Meet (c :: s) t) :
    Agree Same (view (name read (c :: s))) (view (name read t)) := by
  obtain ⟨x, -, hx⟩ := exists_name hc s
  have hstop := stopsAt_dropWhile isNameChar (c :: s)
  rw [← hx] at h ⊢
  obtain ⟨r', rfl, hlongest, halike⟩ := Meet.exists_of_longest (longest_name x hstop) h
  exact agree_name hread x hstop (stopsAt_of_longest hlongest) halike

theorem primary_steady (hread : Steady read) : SteadyAt (primary read) := by
  intro s t h
  -- which primary it is shows in its first character, the same in both texts
  rcases s with _ | ⟨c, s⟩
  · cases t with
    | nil =>
      rw [view_primary]
      exact .error rfl
    | cons d t => cases h.head?
  · by_cases hparen : c = '('
    · subst hparen
      obtain ⟨t', rfl, halike⟩ := h.exists_of_sign (by decide)
      rw [view_primary, view_primary]
      exact parenthesized_steady hread halike
    · obtain ⟨t', rfl⟩ : ∃ t', t = c :: t' := by
        cases t with
        | nil => cases h.head?
        | cons d t' => exact ⟨t', by rw [Option.some.inj h.head?]⟩
      rw [view_primary_cons hparen, view_primary_cons hparen]
      split
      · exact number_steady h
      · split
        · exact name_steady hread ‹_› h
        · exact .error rfl

/-! ## Powers and signed terms -/

theorem power_steady (hread : Steady read) : SteadyAt (power read) := by
  intro s t h
  rw [view_power, view_power]
  refine (primary_steady hread h).bind ?_
  rintro ⟨base, height, r⟩ ⟨_, _, r'⟩ - ⟨rfl, rfl, hrest⟩
  have hmeet := Alike.meet hrest
  simp only
  split
  · rename_i u hstars
    rw [hstars] at hmeet
    obtain ⟨u', hstars', hu⟩ := hmeet.exists_of_stars
    simp only [hstars']
    refine (hread hu).bind ?_
    rintro ⟨exponent, height', v⟩ ⟨_, _, v'⟩ - ⟨rfl, rfl, hv⟩
    refine (agree_grow _ _ _).bind ?_
    rintro height'' _ - rfl
    exact .ok ⟨rfl, rfl, hv⟩
  · rename_i hstars
    split
    · exact (hmeet.ne_stars hstars _ ‹_›).elim
    · exact .ok ⟨rfl, rfl, hmeet.alike⟩

theorem agree_negate (e : Expr) (height : Nat) (u u' : List Char) :
    Agree Eq (negate e height u) (negate e height u') := by
  unfold negate
  split
  · exact .ok rfl
  · refine (agree_grow height u u').bind ?_
    rintro height' _ - rfl
    exact .ok rfl

end Levels

/-- With however many signed terms allowed inside each other, they are read from the tokens. -/
theorem signed_steady (n : Nat) : Steady (Expr.Parser.signed n) := by
  induction n with
  | zero =>
    intro s t halike
    rw [view_signed_zero, view_signed_zero]
    exact .error rfl
  | succ n ih =>
    intro s t halike
    have hmeet := halike.meet
    rw [view_signed_succ, view_signed_succ]
    split
    · rename_i u hminus
      rw [hminus] at hmeet
      obtain ⟨u', hminus', hu⟩ := hmeet.exists_of_sign (by decide)
      simp only [hminus']
      refine (ih hu).bind ?_
      rintro ⟨e, height, r⟩ ⟨_, _, r'⟩ - ⟨rfl, rfl, hrest⟩
      refine (agree_negate e height _ _).bind ?_
      rintro y _ - rfl
      exact .ok ⟨rfl, rfl, hrest⟩
    · rename_i hminus
      split
      · exact (hmeet.ne_sign (by decide) hminus _ ‹_›).elim
      · exact power_steady ih hmeet

/-! ## Whole texts -/

/-- Both texts are read as the same tree, or both are turned down: for the same reason, or for what
is left over behind an expression, which is the same but for blanks; and in either case both
faults are of form or both of meaning. -/
inductive SameOutcome : Except ParseError Expr → Except ParseError Expr → Prop
  | accepted (e : Expr) : SameOutcome (.ok e) (.ok e)
  | refused {err err' : ParseError}
      (cause : err.cause = err'.cause ∨ ∃ rest rest' : String, Alike rest.toList rest'.toList ∧
        err.cause = .unreadInput rest ∧ err'.cause = .unreadInput rest')
      (isSemantic : err.cause.isSemantic = err'.cause.isSemantic) :
      SameOutcome (.error err) (.error err')

/-- On texts with the same tokens the whole reader does the same, up to what it quotes. -/
theorem whole_steady {s t : List Char} (halike : Alike s t) :
    Agree Eq (whole s) (whole t) ∨ ∃ rest rest', Alike rest rest' ∧
      whole s = .error ⟨.unreadInput (String.ofList rest), rest⟩ ∧
      whole t = .error ⟨.unreadInput (String.ofList rest'), rest'⟩ := by
  have hsum := sum_steady (signed_steady maxDepth) halike
  -- what is left over may still differ in its blanks, and a fault quotes it
  rw [whole_eq_bind, whole_eq_bind]
  generalize view (Expr.Parser.sum (Expr.Parser.signed maxDepth) s) = x at hsum ⊢
  generalize view (Expr.Parser.sum (Expr.Parser.signed maxDepth) t) = y at hsum ⊢
  cases hsum with
  | error h => exact Or.inl (.error h)
  | @ok a b h =>
    obtain ⟨e, height, r⟩ := a
    obtain ⟨_, _, r'⟩ := b
    obtain ⟨rfl, rfl, hrest⟩ := h
    have hmeet := Alike.meet hrest
    rw [bind_ok, bind_ok]
    simp only
    generalize dropBlank r = u at hmeet ⊢
    generalize dropBlank r' = u' at hmeet ⊢
    rcases u with _ | ⟨c, u⟩ <;> rcases u' with _ | ⟨c', u'⟩
    · exact Or.inl (.ok rfl)
    · cases hmeet.head?
    · cases hmeet.head?
    · exact Or.inr ⟨c :: u, c' :: u', hmeet.alike, rfl, rfl⟩

/-- **Layout does not matter.** Texts with the same tokens, however they are spread out with blanks,
have the same outcome.

The two texts are read side by side. What is left of one and of the other always has the same tokens
(`Alike`), and every reader either takes the same tokens off both or fails on both for the same
reason. Only the place of an error depends on the layout. -/
theorem parse_of_tokens {s t : String} {ts : List (List Char)} (hs : Tokens s.toList ts)
    (ht : Tokens t.toList ts) : SameOutcome (parse s) (parse t) := by
  unfold parse
  rcases whole_steady ⟨ts, hs, ht⟩ with h | ⟨rest, rest', halike, hfault, hfault'⟩
  · generalize whole s.toList = x at h ⊢
    generalize whole t.toList = y at h ⊢
    cases h with
    | @ok e e' h =>
      obtain rfl : e = e' := h
      exact .accepted e
    | @error f g h => exact .refused (Or.inl h) (congrArg ParseCause.isSemantic h)
  · rw [hfault, hfault']
    refine .refused (Or.inr ⟨_, _, ?_, rfl, rfl⟩) rfl
    rw [String.toList_ofList, String.toList_ofList]
    exact halike

/-- A text without blanks, the same spread out with blanks of several kinds, and their tokens. -/
def packed : String := "-2e1**close*rank(.5)"

def spread : String := " - 2e1\u2003**\tclose\n* rank\u00a0( .5 ) "

def pieces : List (List Char) :=
  ["-", "2e1", "**", "close", "*", "rank", "(", ".5", ")"].map String.toList

theorem parse_spread : Tokens packed.toList pieces ∧ Tokens spread.toList pieces ∧
    SameOutcome (parse packed) (parse spread) := by
  have hpacked : Tokens packed.toList pieces := tokens_iff.mpr (by decide +kernel)
  have hspread : Tokens spread.toList pieces := tokens_iff.mpr (by decide +kernel)
  exact ⟨hpacked, hspread, parse_of_tokens hpacked hspread⟩

end FactorStudy.Grammar
