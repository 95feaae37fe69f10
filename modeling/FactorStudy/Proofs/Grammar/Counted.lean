import FactorStudy.Proofs.Grammar.Reader

/-!
# Reading with a counter of the nesting

The readers are told how many signed terms may still stand inside each other. A reader that keeps a
counter instead raises it before every signed term, gives up when it has passed `maxDepth`, and
lowers it again whatever came of the term. Here such readers are written out for every level, over
the counter and the highest value it has had, with nothing but a bound on the depth of their
recursion to make them total: where the bound is used up there is no result at all.

They give what the readers without a counter give, so there always is a result. They leave the
counter as they found it, on success and on failure, and it never passes `maxDepth` by more than
one. `Accounts` says so of one computation and is kept by doing one after the other, so there is one
lemma for each level, and the induction is at signed terms alone (`counts_signed`).
-/

namespace FactorStudy.Grammar

open Text (dropBlank)
open FactorStudy.Expr (maxDepth)
open Expr.Parser

/-- The counter of the nesting, and the highest value it has had. -/
structure Nesting where
  now : Nat
  most : Nat

/-- A computation that counts the nesting, may fail, and may run out of the depth it is allowed to
recurse to. -/
abbrev Counting := ExceptT Fault (StateT Nesting Option)

/-- The result, if there is one, with the counter behind it. -/
def Counting.runFrom {α : Type} (x : Counting α) (n : Nesting) : Option (Except Fault α × Nesting) :=
  x.run.run n

namespace Counted

/-- Reads one tree from the front of a text, and counts. -/
abbrev Reader := List Char → Counting (Expr × Nat × List Char)

/-- A step that does not touch the counter. -/
def still {α : Type} (x : Except Fault α) : Counting α := MonadExcept.ofExcept x

/-- No result: the recursion went deeper than allowed. -/
def exhausted {α : Type} : Counting α := fun _ => none

/-- What comes of a computation, a fault as well as a value. -/
def outcome {α : Type} (x : Counting α) : Counting (Except Fault α) := ExceptT.lift x.run

/-- With the counter one higher, and back to where it was whatever comes of it. -/
def oneDeeper {α : Type} (x : Counting α) : Counting α := do
  modify fun n => ⟨n.now + 1, max n.most (n.now + 1)⟩
  let result ← outcome x
  modify fun n => { n with now := n.now - 1 }
  still result

/-- Continues a chain of operands after its left part, over at most the given number of links. -/
def links (operator : Operator) (operand : Reader) :
    Nat → Expr → Nat → List Char → Counting (Expr × Nat × List Char)
  | 0, _, _, _ => exhausted
  | fuel + 1, left, height, s =>
    match operator (dropBlank s) with
    | none => return (left, height, dropBlank s)
    | some (op, afterOp) => do
      let right ← operand afterOp.1
      let height ← still (grow (max height right.2.1) (dropBlank s))
      links operator operand fuel (.binary op left right.1) height right.2.2

def chain (operator : Operator) (operand : Reader) : Reader := fun s => do
  let first ← operand s
  links operator operand (first.2.2.length + 1) first.1 first.2.1 first.2.2

def sum (signed : Reader) : Reader := chain sumOperator (chain productOperator signed)

def number : Reader := fun s => still (view (Expr.Parser.number s))

/-- The arguments of a call from the first one on, at most the given number of them. -/
def arguments (argument : Reader) : Nat → List Char → Counting (List Argument × List Char)
  | 0, _ => exhausted
  | fuel + 1, s => do
    let arg ← argument (dropBlank s)
    match dropBlank arg.2.2 with
    | ',' :: more => do
      let others ← arguments argument fuel more
      return (⟨arg.1, arg.2.1, dropBlank s⟩ :: others.1, others.2)
    | ')' :: rest => return ([⟨arg.1, arg.2.1, dropBlank s⟩], rest)
    | other => throw ⟨.expected "',' or ')'" other.head?, other⟩

def argumentList (argument : Reader) (s : List Char) : Counting (List Argument × List Char) :=
  match dropBlank s with
  | ')' :: rest => return ([], rest)
  | _ => arguments argument (s.length + 1) s

/-- The call of a function whose name stands at `start`, after the opening parenthesis. -/
def call (signed : Reader) (f : Builtin) (start : List Char) : Reader := fun inside => do
  let args ← argumentList (sum signed) inside
  let node ← still (finishCall f args.1 start)
  return (node.1, node.2, args.2)

def name (signed : Reader) : Reader := fun s =>
  if (s.dropWhile isNameChar).length < s.length then
    match dropBlank (s.dropWhile isNameChar) with
    | '(' :: inside =>
      match Builtin.named? (String.ofList (s.takeWhile isNameChar)) with
      | none => throw ⟨.unknownFunction (String.ofList (s.takeWhile isNameChar)), s⟩
      | some f => call signed f s inside
    | rest =>
      match Column.named? (String.ofList (s.takeWhile isNameChar)) with
      | some c => return (.column c, 1, rest)
      | none => throw ⟨.unknownColumn (String.ofList (s.takeWhile isNameChar)), s⟩
  else throw ⟨.expected "expression" s.head?, s⟩

def parenthesized (signed : Reader) : Reader := fun s => do
  let inner ← sum signed s
  let rest ← still (expectView ')' inner.2.2)
  return (inner.1, inner.2.1, rest)

def primary (signed : Reader) : Reader := fun s =>
  match s with
  | '(' :: inside => parenthesized signed inside
  | c :: rest =>
    if c.isDigit ∨ c = '.' then number (c :: rest)
    else if c.isAlpha ∨ c = '_' then name signed (c :: rest)
    else throw ⟨.expected "expression" (some c), c :: rest⟩
  | [] => throw ⟨.expected "expression" none, []⟩

def power (signed : Reader) : Reader := fun s => do
  let base ← primary signed s
  match dropBlank base.2.2 with
  | '*' :: '*' :: afterOp =>
    let exponent ← signed afterOp
    let height ← still (grow (max base.2.1 exponent.2.1) ('*' :: '*' :: afterOp))
    return (.binary .pow base.1 exponent.1, height, exponent.2.2)
  | rest => return (base.1, base.2.1, rest)

/-- A signed term, at its first character and with itself already counted. -/
def term (signed : Reader) : Reader := fun s =>
  match s with
  | '-' :: afterMinus => do
    let operand ← signed afterMinus
    let node ← still (negate operand.1 operand.2.1 ('-' :: afterMinus))
    return (node.1, node.2, operand.2.2)
  | s => power signed s

/-- A signed term. The counter alone decides whether it is nested too deeply. -/
def signed : Nat → Reader
  | 0, _ => exhausted
  | fuel + 1, s => oneDeeper do
    if maxDepth < (← get).now then
      throw ⟨.nestedTooDeeply, dropBlank s⟩
    else term (signed fuel) (dropBlank s)

/-- An expression that takes up the whole text. -/
def whole (signed : Reader) (s : List Char) : Counting Expr := do
  let p ← sum signed s
  match dropBlank p.2.2 with
  | [] => return p.1
  | rest => throw ⟨.unreadInput (String.ofList rest), rest⟩

end Counted

/-! ## Runs -/

section Runs

variable {α β : Type}

theorem runFrom_still (x : Except Fault α) (n : Nesting) :
    (Counted.still x).runFrom n = some (x, n) := by
  cases x <;> rfl

theorem runFrom_bind (x : Counting α) (f : α → Counting β) (n : Nesting) :
    (x >>= f).runFrom n = (x.runFrom n).bind fun
      | (.ok a, n') => (f a).runFrom n'
      | (.error fault, n') => some (.error fault, n') := by
  show Option.bind _ _ = Option.bind _ _
  congr 1
  funext ⟨outcome, n'⟩
  cases outcome <;> rfl

theorem runFrom_get (n : Nesting) : (get : Counting Nesting).runFrom n = some (.ok n, n) := rfl

theorem runFrom_modify (f : Nesting → Nesting) (n : Nesting) :
    (modify f : Counting PUnit).runFrom n = some (.ok ⟨⟩, f n) := rfl

theorem runFrom_outcome (x : Counting α) (n : Nesting) :
    (Counted.outcome x).runFrom n = (x.runFrom n).map fun r => (.ok r.1, r.2) := by
  show Option.bind (x.runFrom n) _ = Option.map _ (x.runFrom n)
  cases x.runFrom n <;> rfl

theorem runFrom_oneDeeper (x : Counting α) (n : Nesting) :
    (Counted.oneDeeper x).runFrom n =
      (x.runFrom ⟨n.now + 1, max n.most (n.now + 1)⟩).map fun r =>
        (r.1, ⟨r.2.now - 1, r.2.most⟩) := by
  simp only [Counted.oneDeeper, runFrom_bind, runFrom_modify, runFrom_outcome, runFrom_still,
    Option.bind_some, Option.bind_map]
  cases x.runFrom ⟨n.now + 1, max n.most (n.now + 1)⟩ <;> rfl

/-- With the counter at `k` there is a result, and it is the given one. The counter is at `k` again
behind it, and has not been more than one above `k` and `maxDepth`. -/
def Accounts (k : Nat) (x : Counting α) (y : Except Fault α) : Prop :=
  ∀ most, most ≤ max k maxDepth + 1 →
    ∃ most', most ≤ most' ∧ most' ≤ max k maxDepth + 1 ∧ x.runFrom ⟨k, most⟩ = some (y, ⟨k, most'⟩)

variable {k : Nat}

theorem Accounts.still (y : Except Fault α) : Accounts k (Counted.still y) y := by
  intro most hmost
  exact ⟨most, Nat.le_refl _, hmost, runFrom_still y _⟩

theorem Accounts.return (a : α) : Accounts k (pure a) (.ok a) := Accounts.still (.ok a)

theorem Accounts.throw (fault : Fault) : Accounts k (throw fault : Counting α) (.error fault) :=
  Accounts.still (.error fault)

theorem Accounts.bind {x : Counting α} {y : Except Fault α} {f : α → Counting β}
    {g : α → Except Fault β} (hx : Accounts k x y) (hf : ∀ a, y = .ok a → Accounts k (f a) (g a)) :
    Accounts k (x >>= f) (y.bind g) := by
  intro most hmost
  obtain ⟨most₁, hle₁, hmost₁, hrun₁⟩ := hx most hmost
  rw [runFrom_bind, hrun₁, Option.bind_some]
  cases y with
  | error fault => exact ⟨most₁, hle₁, hmost₁, rfl⟩
  | ok a =>
    obtain ⟨most₂, hle₂, hmost₂, hrun₂⟩ := hf a rfl most₁ hmost₁
    exact ⟨most₂, Nat.le_trans hle₁ hle₂, hmost₂, hrun₂⟩

theorem runFrom_signed (fuel : Nat) (s : List Char) (most : Nat) :
    (Counted.signed (fuel + 1) s).runFrom ⟨k, most⟩ =
      if k < maxDepth then
        ((Counted.term (Counted.signed fuel) (dropBlank s)).runFrom ⟨k + 1, max most (k + 1)⟩).map
          fun r => (r.1, ⟨r.2.now - 1, r.2.most⟩)
      else some (.error ⟨.nestedTooDeeply, dropBlank s⟩, ⟨k, max most (k + 1)⟩) := by
  rw [Counted.signed, runFrom_oneDeeper, runFrom_bind, runFrom_get, Option.bind_some]
  by_cases hk : k < maxDepth
  · rw [if_pos hk]
    simp only [if_neg (Nat.not_lt_of_le hk)]
  · rw [if_neg hk]
    simp only [if_pos (Nat.lt_succ_of_le (Nat.le_of_not_lt hk))]
    rfl

end Runs

/-! ## Levels -/

/-- From the counter at `k`, the counting reader accounts for the plain one on every text. -/
def Counts (k : Nat) (counted : Counted.Reader) (read : List Char → Result) : Prop :=
  ∀ s, Accounts k (counted s) (read s)

section Levels

variable {k : Nat}

/-- Behind an operator and its operand there is less text. -/
theorem length_lt_of_operand {operand : Reader} {s : List Char}
    (t : { r : List Char // r.length < (dropBlank s).length }) {x : Expr × Nat × List Char}
    (h : view (operand t.1) = .ok x) : x.2.2.length < s.length :=
  Nat.lt_of_lt_of_le (Nat.lt_trans (length_lt_of_view h) t.2) (Text.length_dropBlank_le s)

/-- Behind an argument and its comma there is less text. -/
theorem length_lt_of_argument {argument : Reader} {s more : List Char} {c : Char}
    {x : Expr × Nat × List Char} (h : view (argument (dropBlank s)) = .ok x)
    (hmore : dropBlank x.2.2 = c :: more) : more.length < s.length := by
  have hlt := length_lt_of_view h
  have hle := Text.length_dropBlank_le s
  have hrest := Text.length_dropBlank_le x.2.2
  rw [hmore, List.length_cons] at hrest
  omega

section Chain

variable {operator : Operator} {counted : Counted.Reader} {operand : Reader}

/-- The links of a chain; the induction is on how many there may be, and a text has no more of them
than characters. -/
theorem accounts_links (h : Counts k counted fun s => view (operand s)) (fuel : Nat) :
    ∀ {s : List Char} (left : Expr) (height : Nat), s.length < fuel →
      Accounts k (Counted.links operator counted fuel left height s)
        (chainView operator operand left height s) := by
  induction fuel with
  | zero =>
    intro s left height hs
    exact absurd hs (Nat.not_lt_zero _)
  | succ fuel ih =>
    intro s left height hs
    rw [Counted.links]
    cases hop : operator (dropBlank s) with
    | none =>
      rw [chainView_none hop]
      exact Accounts.return _
    | some found =>
      obtain ⟨op, t⟩ := found
      rw [chainView_some hop]
      refine Accounts.bind (h t.1) fun right hright => ?_
      refine Accounts.bind (Accounts.still _) fun height' _ => ?_
      exact ih _ _ (Nat.lt_of_lt_of_le (length_lt_of_operand t hright) (Nat.le_of_lt_succ hs))

theorem counts_chain (h : Counts k counted fun s => view (operand s)) :
    Counts k (Counted.chain operator counted) fun s => view (chain operator operand s) := by
  intro s
  simp only [view_chain]
  exact Accounts.bind (h s) fun first _ => accounts_links h _ _ _ (Nat.lt_succ_self _)

end Chain

variable {counted : Counted.Reader} {read : Reader}

theorem counts_sum (h : Counts k counted fun s => view (read s)) :
    Counts k (Counted.sum counted) fun s => view (Expr.Parser.sum read s) :=
  counts_chain (counts_chain h)

/-- The arguments of a call; the induction is as for the links of a chain. -/
theorem accounts_arguments (h : Counts k counted fun s => view (read s)) (fuel : Nat) :
    ∀ {s : List Char}, s.length < fuel →
      Accounts k (Counted.arguments counted fuel s) (argumentsView read s) := by
  induction fuel with
  | zero =>
    intro s hs
    exact absurd hs (Nat.not_lt_zero _)
  | succ fuel ih =>
    intro s hs
    rw [Counted.arguments, argumentsView_eq]
    refine Accounts.bind (h (dropBlank s)) fun arg harg => ?_
    by_cases hcomma : ∃ more, dropBlank arg.2.2 = ',' :: more
    · obtain ⟨more, hmore⟩ := hcomma
      have hshort : more.length < fuel :=
        Nat.lt_of_lt_of_le (length_lt_of_argument harg hmore) (Nat.le_of_lt_succ hs)
      simp only [hmore]
      exact Accounts.bind (ih hshort) fun others _ => Accounts.return _
    · by_cases hclose : ∃ rest, dropBlank arg.2.2 = ')' :: rest
      · obtain ⟨rest, hrest⟩ := hclose
        simp only [hrest]
        exact Accounts.return _
      · rw [not_exists] at hcomma hclose
        simp only
        exact Accounts.throw _

theorem accounts_argumentList (h : Counts k counted fun s => view (read s)) (s : List Char) :
    Accounts k (Counted.argumentList counted s) (argumentListView read s) := by
  rw [Counted.argumentList, argumentListView_eq]
  by_cases hclose : ∃ rest, dropBlank s = ')' :: rest
  · obtain ⟨rest, hrest⟩ := hclose
    simp only [hrest]
    exact Accounts.return _
  · rw [not_exists] at hclose
    simp only
    exact accounts_arguments h _ (Nat.lt_succ_self _)

/-- A call, after its opening parenthesis. -/
def callView (signed : Reader) (f : Builtin) (start inside : List Char) : Result :=
  (argumentListView (Expr.Parser.sum signed) inside).bind fun args =>
    (finishCall f args.1 start).bind fun x => .ok (x.1, x.2, args.2)

theorem counts_call (h : Counts k counted fun s => view (read s)) (f : Builtin)
    (start : List Char) : Counts k (Counted.call counted f start) (callView read f start) := by
  intro inside
  refine Accounts.bind (accounts_argumentList (counts_sum h) inside) fun args _ => ?_
  exact Accounts.bind (Accounts.still _) fun node _ => Accounts.return _

theorem counts_name (h : Counts k counted fun s => view (read s)) :
    Counts k (Counted.name counted) fun s => view (name read s) := by
  intro s
  simp only [view_name, Counted.name]
  by_cases hname : (s.dropWhile isNameChar).length < s.length
  · rw [if_pos hname, if_pos hname]
    by_cases hparen : ∃ inside, dropBlank (s.dropWhile isNameChar) = '(' :: inside
    · -- a parenthesis behind the name makes it a call
      obtain ⟨inside, hparen⟩ := hparen
      simp only [hparen]
      cases Builtin.named? (String.ofList (s.takeWhile isNameChar)) with
      | none => exact Accounts.throw _
      | some f => exact counts_call h f s inside
    · rw [not_exists] at hparen
      simp only
      cases Column.named? (String.ofList (s.takeWhile isNameChar)) with
      | none => exact Accounts.throw _
      | some c => exact Accounts.return _
  · rw [if_neg hname, if_neg hname]
    exact Accounts.throw _

theorem counts_parenthesized (h : Counts k counted fun s => view (read s)) :
    Counts k (Counted.parenthesized counted) fun s => view (parenthesized read s) := by
  intro s
  simp only [view_parenthesized]
  refine Accounts.bind (counts_sum h s) fun inner _ => ?_
  exact Accounts.bind (Accounts.still _) fun rest _ => Accounts.return _

theorem counts_primary (h : Counts k counted fun s => view (read s)) :
    Counts k (Counted.primary counted) fun s => view (primary read s) := by
  intro s
  cases s with
  | nil => exact Accounts.throw _
  | cons c s =>
    -- only a parenthesis opens a new level; the other kinds leave the count as it is
    by_cases hparen : c = '('
    · subst hparen
      simp only [view_primary, Counted.primary]
      exact counts_parenthesized h s
    · simp only [view_primary_cons hparen]
      unfold Counted.primary
      split
      · exact absurd (List.cons.inj ‹_›).1 hparen
      · rename_i heq
        cases heq
        split
        · exact Accounts.still _
        · split
          · exact counts_name h _
          · exact Accounts.throw _
      · cases ‹_›

theorem counts_power (h : Counts k counted fun s => view (read s)) :
    Counts k (Counted.power counted) fun s => view (power read s) := by
  intro s
  simp only [view_power]
  refine Accounts.bind (counts_primary h s) fun base _ => ?_
  by_cases hstars : ∃ afterOp, dropBlank base.2.2 = '*' :: '*' :: afterOp
  · obtain ⟨afterOp, hafter⟩ := hstars
    simp only [hafter]
    refine Accounts.bind (h afterOp) fun exponent _ => ?_
    exact Accounts.bind (Accounts.still _) fun height _ => Accounts.return _
  · rw [not_exists] at hstars
    simp only
    exact Accounts.return _

/-- A signed term at its first character, when the ones inside it are read by `signed`. -/
def termView (signed : Reader) (s : List Char) : Result :=
  match s with
  | '-' :: t =>
    (view (signed t)).bind fun x =>
      (negate x.1 x.2.1 ('-' :: t)).bind fun y => .ok (y.1, y.2, x.2.2)
  | t => view (power signed t)

theorem view_signed_eq_termView (n : Nat) (s : List Char) :
    view (signed (n + 1) s) = termView (signed n) (dropBlank s) := view_signed_succ n s

theorem counts_term (h : Counts k counted fun s => view (read s)) :
    Counts k (Counted.term counted) (termView read) := by
  intro s
  unfold Counted.term termView
  split
  · rename_i afterMinus
    refine Accounts.bind (h afterMinus) fun operand _ => ?_
    exact Accounts.bind (Accounts.still _) fun node _ => Accounts.return _
  · exact counts_power h s

end Levels

/-- At the highest count that is allowed, and beyond it, no signed term is read. -/
theorem accounts_signed_of_le {k fuel most : Nat} (hk : maxDepth ≤ k) (s : List Char)
    (hmost : most ≤ max k maxDepth + 1) :
    ∃ most', most ≤ most' ∧ most' ≤ max k maxDepth + 1 ∧
      (Counted.signed (fuel + 1) s).runFrom ⟨k, most⟩ =
        some (view (signed (maxDepth - k) s), ⟨k, most'⟩) := by
  have hnone : maxDepth - k = 0 := Nat.sub_eq_zero_of_le hk
  refine ⟨max most (k + 1), Nat.le_max_left _ _, by omega, ?_⟩
  rw [runFrom_signed, if_neg (Nat.not_lt_of_le hk), hnone, view_signed_zero]

/-- With the counter at `k`, a signed term may have `maxDepth - k` of them inside each other, itself
included. The induction is on the depth of the recursion, which the counter bounds. -/
theorem counts_signed (fuel : Nat) : ∀ {k : Nat}, maxDepth ≤ k + fuel →
    Counts k (Counted.signed (fuel + 1)) fun s => view (signed (maxDepth - k) s) := by
  induction fuel with
  | zero =>
    intro k hk s most hmost
    exact accounts_signed_of_le hk s hmost
  | succ fuel ih =>
    intro k hk s most hmost
    by_cases hle : maxDepth ≤ k
    · exact accounts_signed_of_le hle s hmost
    · -- inside the term the counter is one higher, and one signed term fewer is allowed
      have hterm : Counts (k + 1) (Counted.term (Counted.signed (fuel + 1)))
          (termView (signed (maxDepth - (k + 1)))) := counts_term (ih (by omega))
      have hbound : max most (k + 1) ≤ max (k + 1) maxDepth + 1 := by omega
      obtain ⟨most', hle', hmost', hrun⟩ := hterm (dropBlank s) _ hbound
      have hallowed : maxDepth - k = maxDepth - (k + 1) + 1 := by omega
      refine ⟨most', by omega, by omega, ?_⟩
      simp only [hallowed, view_signed_eq_termView]
      rw [runFrom_signed, if_pos (Nat.lt_of_not_le hle), hrun]
      rfl

end FactorStudy.Grammar
