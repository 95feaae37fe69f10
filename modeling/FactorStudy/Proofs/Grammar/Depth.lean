import FactorStudy.Proofs.Grammar.Counted
import FactorStudy.Proofs.Grammar.RoundTrip

/-!
# How deep an expression can be

Two numbers are kept by hand while an expression is read: the height of the tree so far, which every
reader returns with its tree, and the nesting of signed terms. The height is that of the tree, and at
most `maxDepth`, whatever reader of signed terms a level is given, as long as that one counts right
(`Measures`); so the induction on the nesting is over one level at a time. The nesting is the
business of `Counted`.

A function that descends a tree from each node to the nodes below it is called no deeper than the
tree is high (`length_le_height`). So reading bounds the depth of all work on what was read.
-/

namespace FactorStudy.Grammar

open Text (dropBlank)
open FactorStudy.Expr (maxDepth parse)
open Expr.Parser

/-! ## Heights -/

/-- The height that comes with a tree is right, and allowed. -/
def Measured (x : Expr × Nat × List Char) : Prop := x.2.1 = x.1.height ∧ x.2.1 ≤ maxDepth

/-- Every tree that is read comes with its height. -/
def Measures (read : List Char → Result) : Prop := ∀ s, Outcome (read s) Measured fun _ => True

theorem Measures.of_eq_ok {read : List Char → Result} (h : Measures read) {s : List Char}
    {x : Expr × Nat × List Char} (hx : read s = .ok x) : Measured x := by
  have houtcome := h s
  rw [hx] at houtcome
  exact houtcome

/-- Nothing is asked of faults. -/
theorem outcome_bind_measured {α : Type} {x : Except Fault α} {f : α → Result} {good : α → Prop}
    (hx : Outcome x good fun _ => True)
    (hf : ∀ a, good a → Outcome (f a) Measured fun _ => True) :
    Outcome (x.bind f) Measured fun _ => True := Outcome.bind hx (fun _ h => h) hf

theorem outcome_grow_height (child : Nat) (u : List Char) :
    Outcome (grow child u) (fun h => h = child + 1 ∧ h ≤ maxDepth) fun _ => True := by
  refine (outcome_grow child u).mono ?_ fun _ _ => trivial
  rintro h ⟨rfl, hle⟩
  exact ⟨rfl, hle⟩

section Chain

variable {operator : Operator} {operand : Reader}

/-- Each link adds one to the higher of both sides; the induction is on what is left of the text. -/
theorem chainView_measured (h : Measures fun s => view (operand s)) (n : Nat) :
    ∀ {s : List Char} {left : Expr} {height : Nat}, s.length = n → height = left.height →
      height ≤ maxDepth →
      Outcome (chainView operator operand left height s) Measured fun _ => True := by
  induction n using Nat.strongRecOn with
  | ind n ih =>
    intro s left height hn hheight hlow
    cases hop : operator (dropBlank s) with
    | none =>
      rw [chainView_none hop]
      exact ⟨hheight, hlow⟩
    | some found =>
      obtain ⟨op, t⟩ := found
      rw [chainView_some hop]
      cases hread : view (operand t.1) with
      | error fault => trivial
      | ok right =>
        have hright : Measured right := h.of_eq_ok hread
        have hshort : right.2.2.length < n := hn ▸ length_lt_of_operand t hread
        rw [bind_ok]
        refine outcome_bind_measured (outcome_grow_height _ _) ?_
        rintro height' ⟨rfl, hlow'⟩
        refine ih _ hshort rfl ?_ hlow'
        rw [hheight, hright.1, Expr.height]

theorem chain_measures (h : Measures fun s => view (operand s)) :
    Measures fun s => view (chain operator operand s) := by
  intro s
  simp only [view_chain]
  refine outcome_bind_measured (h s) ?_
  intro first hfirst
  exact chainView_measured h _ rfl hfirst.1 hfirst.2

end Chain

section Levels

variable {read : Reader}

theorem sum_measures (h : Measures fun s => view (read s)) :
    Measures fun s => view (Expr.Parser.sum read s) := chain_measures (chain_measures h)

theorem number_measures : Measures fun s => view (number s) := by
  intro s
  simp only [view_number]
  split
  · exact ⟨rfl, one_le_maxDepth⟩
  · trivial

/-- Every argument of a call comes with its height; the induction is as for a chain. -/
theorem argumentsView_measured (h : Measures fun s => view (read s)) (n : Nat) :
    ∀ {s : List Char}, s.length = n →
      Outcome (argumentsView read s) (fun x => ∀ a ∈ x.1, a.height = a.expr.height)
        fun _ => True := by
  induction n using Nat.strongRecOn with
  | ind n ih =>
    intro s hn
    rw [argumentsView_eq]
    cases hread : view (read (dropBlank s)) with
    | error fault => trivial
    | ok arg =>
      have harg : Measured arg := h.of_eq_ok hread
      rw [bind_ok]
      split
      · rename_i more hmore
        have hshort : more.length < n := hn ▸ length_lt_of_argument hread hmore
        refine Outcome.bind (ih _ hshort rfl) (fun _ h => h) ?_
        intro others hothers
        exact List.forall_mem_cons.mpr ⟨harg.1, hothers⟩
      · exact List.forall_mem_singleton.mpr harg.1
      · trivial

theorem argumentListView_measured (h : Measures fun s => view (read s)) (s : List Char) :
    Outcome (argumentListView read s) (fun x => ∀ a ∈ x.1, a.height = a.expr.height)
      fun _ => True := by
  rw [argumentListView_eq]
  split
  · exact fun a ha => absurd ha List.not_mem_nil
  · exact argumentsView_measured h _ rfl

theorem call_measures (h : Measures fun s => view (read s)) (f : Builtin) (start : List Char) :
    Measures (callView read f start) := by
  intro inside
  refine outcome_bind_measured (argumentListView_measured (sum_measures h) inside) ?_
  intro args hargs
  refine outcome_bind_measured
    ((finishCall_complete f hargs start).mono (fun _ hy => hy.2) fun _ _ => trivial) ?_
  rintro ⟨e, height⟩ ⟨hheight, hlow⟩
  exact ⟨hheight, hheight ▸ hlow⟩

theorem name_measures (h : Measures fun s => view (read s)) :
    Measures fun s => view (name read s) := by
  intro s
  simp only [view_name]
  split
  · split
    · split
      · trivial
      · exact call_measures h _ s _
    · split
      · exact ⟨rfl, one_le_maxDepth⟩
      · trivial
  · trivial

theorem parenthesized_measures (h : Measures fun s => view (read s)) :
    Measures fun s => view (parenthesized read s) := by
  intro s
  simp only [view_parenthesized]
  refine outcome_bind_measured (sum_measures h s) ?_
  intro inner hinner
  have hclose : Outcome (expectView ')' inner.2.2) (fun _ => True) fun _ => True := by
    cases expectView ')' inner.2.2 <;> trivial
  exact outcome_bind_measured hclose fun rest _ => hinner

theorem primary_measures (h : Measures fun s => view (read s)) :
    Measures fun s => view (primary read s) := by
  intro s
  simp only [view_primary]
  split
  · exact parenthesized_measures h _
  · split
    · exact number_measures _
    · split
      · exact name_measures h _
      · trivial
  · trivial

theorem power_measures (h : Measures fun s => view (read s)) :
    Measures fun s => view (power read s) := by
  intro s
  simp only [view_power]
  refine outcome_bind_measured (primary_measures h s) ?_
  intro base hbase
  split
  · refine outcome_bind_measured (h _) ?_
    intro exponent hexponent
    refine outcome_bind_measured (outcome_grow_height _ _) ?_
    rintro height ⟨rfl, hlow⟩
    refine ⟨?_, hlow⟩
    -- the heights read so far are those of the two sides
    show max base.2.1 exponent.2.1 + 1 = (Expr.binary .pow base.1 exponent.1).height
    rw [hbase.1, hexponent.1, Expr.height]
  · exact hbase

/-- A minus adds one, except that it is taken into a number. -/
theorem term_measures (h : Measures fun s => view (read s)) : Measures (termView read) := by
  intro s
  unfold termView
  split
  · refine outcome_bind_measured (h _) ?_
    rintro ⟨e, height, rest⟩ ⟨hheight, -⟩
    simp only at hheight ⊢
    subst hheight
    refine outcome_bind_measured
      ((outcome_negate e _).mono (fun _ hy => hy.2) fun _ _ => trivial) ?_
    rintro ⟨e', height⟩ ⟨hheight, hlow⟩
    exact ⟨hheight, hheight ▸ hlow⟩
  · exact power_measures h s

end Levels

/-- Signed terms of any nesting come with their height; the induction is on the nesting. -/
theorem signed_measures (n : Nat) : Measures fun s => view (signed n s) := by
  induction n with
  | zero =>
    intro s
    simp only [view_signed_zero]
    trivial
  | succ n ih =>
    intro s
    simp only [view_signed_eq_termView]
    exact term_measures ih (dropBlank s)

/-! ## Every level -/

/-- The parts of an expression that are read by a reader of their own. A `term` is a signed term that
has been counted already; a `call` is known by its function and the text where its name stands. -/
inductive Part where
  | sum | product | signed | term | power | primary | name
  | call (f : Builtin) (start : List Char)

namespace Part

/-- What is read of a part when `n` signed terms may stand inside each other. -/
def read (n : Nat) : Part → List Char → Result
  | sum => fun s => view (Expr.Parser.sum (Expr.Parser.signed n) s)
  | product => fun s => view (chain productOperator (Expr.Parser.signed n) s)
  | signed => fun s => view (Expr.Parser.signed n s)
  | term => termView (Expr.Parser.signed n)
  | power => fun s => view (Expr.Parser.power (Expr.Parser.signed n) s)
  | primary => fun s => view (Expr.Parser.primary (Expr.Parser.signed n) s)
  | name => fun s => view (Expr.Parser.name (Expr.Parser.signed n) s)
  | call f start => callView (Expr.Parser.signed n) f start

/-- The reader of a part that keeps the counter. It may recurse as deep as there may be signed
terms. -/
def counted : Part → Counted.Reader
  | sum => Counted.sum (Counted.signed (maxDepth + 1))
  | product => Counted.chain productOperator (Counted.signed (maxDepth + 1))
  | signed => Counted.signed (maxDepth + 1)
  | term => Counted.term (Counted.signed (maxDepth + 1))
  | power => Counted.power (Counted.signed (maxDepth + 1))
  | primary => Counted.primary (Counted.signed (maxDepth + 1))
  | name => Counted.name (Counted.signed (maxDepth + 1))
  | call f start => Counted.call (Counted.signed (maxDepth + 1)) f start

theorem measures (part : Part) (n : Nat) : Measures (part.read n) := by
  have h := signed_measures n
  cases part with
  | sum => exact sum_measures h
  | product => exact chain_measures h
  | signed => exact h
  | term => exact term_measures h
  | power => exact power_measures h
  | primary => exact primary_measures h
  | name => exact name_measures h
  | call f start => exact call_measures h f start

theorem counts (part : Part) (k : Nat) : Counts k part.counted (part.read (maxDepth - k)) := by
  have h := counts_signed maxDepth (Nat.le_add_left maxDepth k)
  cases part with
  | sum => exact counts_sum h
  | product => exact counts_chain h
  | signed => exact h
  | term => exact counts_term h
  | power => exact counts_power h
  | primary => exact counts_primary h
  | name => exact counts_name h
  | call f start => exact counts_call h f start

end Part

/-- The whole text is read with the counter from zero to zero. -/
theorem accounts_whole (s : List Char) :
    Accounts 0 (Counted.whole (Counted.signed (maxDepth + 1)) s) (whole s) := by
  rw [whole_eq_bind]
  refine Accounts.bind (Part.sum.counts 0 s) fun p _ => ?_
  by_cases hend : dropBlank p.2.2 = []
  · simp only [hend]
    exact Accounts.return _
  · simp only
    exact Accounts.throw _

/-! ## Descending a tree -/

/-- The nodes right below the top of a tree. -/
def children : Expr → List Expr
  | .literal _ | .column _ => []
  | .neg e => [e]
  | .binary _ l r => [l, r]
  | .call _ args => args

/-- Nodes of a tree from its top downwards, each right below the one before it. -/
abbrev Descent (path : List Expr) : Prop := path.IsChain fun e d => d ∈ children e

theorem height_lt_of_mem_children {e d : Expr} (h : d ∈ children e) : d.height < e.height := by
  cases e with
  | literal v => exact absurd h List.not_mem_nil
  | column c => exact absurd h List.not_mem_nil
  | neg e =>
    obtain rfl := List.mem_singleton.mp h
    exact Nat.lt_succ_self _
  | binary op l r =>
    refine Nat.lt_succ_of_le ?_
    rcases List.mem_cons.mp h with rfl | h
    · exact Nat.le_max_left _ _
    · obtain rfl := List.mem_singleton.mp h
      exact Nat.le_max_right _ _
  | call f args => exact Nat.lt_succ_of_le (height_le_heightAll h)

theorem height_pos (e : Expr) : 0 < e.height := by
  cases e <;> exact Nat.succ_pos _

/-- No descent is longer than the tree is high. -/
theorem length_le_height {path : List Expr} :
    ∀ {e : Expr}, Descent (e :: path) → (e :: path).length ≤ e.height := by
  induction path with
  | nil => exact fun {e} _ => height_pos e
  | cons d path ih =>
    intro e h
    obtain ⟨hd, htail⟩ := List.isChain_cons_cons.mp h
    exact Nat.lt_of_le_of_lt (ih htail) (height_lt_of_mem_children hd)

/-! ## The two counts -/

/-- What the reader of a part keeps to, called with the counter at `k`. -/
structure Part.Kept (part : Part) (s : List Char) (k : Nat) : Prop where
  /-- Whether it succeeds or fails, the counter is at `k` again behind it. The highest that the
  counter was on the way is at most one above `maxDepth`, if `k` was not above that already. -/
  counter : ∃ most, most ≤ max k maxDepth + 1 ∧
    (part.counted s).runFrom ⟨k, k⟩ = some (part.read (maxDepth - k) s, ⟨k, most⟩)
  /-- The height that comes with a tree is that of the tree, and allowed. -/
  height : ∀ e height rest, part.read (maxDepth - k) s = .ok (e, height, rest) →
    height = e.height ∧ height ≤ maxDepth

theorem Part.kept (part : Part) (s : List Char) (k : Nat) : part.Kept s k where
  counter := by
    obtain ⟨most, -, hmost, hrun⟩ := part.counts k s k (by omega)
    exact ⟨most, hmost, hrun⟩
  height _ _ _ h := (part.measures (maxDepth - k)).of_eq_ok h

theorem height_le_of_parse {input : String} {e : Expr} (h : parse input = .ok e) :
    e.height ≤ maxDepth := by
  have hwhole := parse_eq_ok_iff.mp h
  rw [whole_eq_bind] at hwhole
  obtain ⟨p, hp, hend⟩ := exists_of_bind_eq_ok hwhole
  have hmeasured : Measured p := (Part.sum.measures maxDepth).of_eq_ok hp
  split at hend
  · cases hend
    exact hmeasured.1 ▸ hmeasured.2
  · cases hend

/-- **Depth accounting.** On every text and from every count, the reader of each part leaves the
counter as it was, and any tree comes with its height, which is allowed. When a whole input is read
the counter goes from zero to zero and never passes `maxDepth` by more than one. What is read from
it is at most `maxDepth` high, and so is the depth to which anything can descend in it.

The readers of `Counted` carry the counter as state, and go up and down around every signed term.
Those of the parser have no counter but are given what is left of the limit; the first simulate the
second, part by part. -/
theorem parse_depth (input : String) :
    (∀ (part : Part) (s : List Char) (k : Nat), part.Kept s k) ∧
      (∃ most, most ≤ maxDepth + 1 ∧
        (Counted.whole (Counted.signed (maxDepth + 1)) input.toList).runFrom ⟨0, 0⟩ =
          some (whole input.toList, ⟨0, most⟩)) ∧
      ∀ e, parse input = .ok e → e.height ≤ maxDepth ∧
        ∀ path, Descent (e :: path) → (e :: path).length ≤ maxDepth := by
  refine ⟨fun part s k => part.kept s k, ?_, ?_⟩
  · obtain ⟨most, -, hmost, hrun⟩ := accounts_whole input.toList 0 (Nat.zero_le _)
    exact ⟨most, by omega, hrun⟩
  · intro e h
    have hlow := height_le_of_parse h
    exact ⟨hlow, fun path hpath => Nat.le_trans (length_le_height hpath) hlow⟩

/-- A minus before a column. -/
def negatedClose : Expr := .neg (.column .close)

/-- The counter reaches one more than is allowed where a signed term is given up. -/
theorem parse_depth_negatedClose :
    parse "(-close)" = .ok negatedClose ∧ Descent [negatedClose, .column .close] ∧
      (Part.signed.counted "close".toList).runFrom ⟨256, 256⟩ =
        some (.error ⟨.nestedTooDeeply, "close".toList⟩, ⟨256, 257⟩) ∧
      Part.signed.Kept "close".toList 256 ∧ negatedClose.height ≤ maxDepth ∧
      [negatedClose, .column .close].length ≤ maxDepth := by
  have hrender : negatedClose.render = "(-close)" := by decide +kernel
  have hparse : parse "(-close)" = .ok negatedClose := by
    obtain ⟨n, d, htext, htree, hnesting⟩ :=
      exists_derivation_render (e := negatedClose) (by decide +kernel)
    rw [hrender] at htext
    exact parse_of_derivation d htext (htree.trans (if_pos (by decide +kernel)))
      (hnesting ▸ by decide +kernel) (by decide +kernel)
  have hdescent : Descent [negatedClose, .column .close] :=
    List.isChain_cons_cons.mpr ⟨List.mem_singleton_self _, List.isChain_singleton _⟩
  obtain ⟨hkept, -, htree⟩ := parse_depth "(-close)"
  obtain ⟨hlow, hpath⟩ := htree _ hparse
  refine ⟨hparse, hdescent, ?_, hkept .signed _ 256, hlow, hpath _ hdescent⟩
  exact runFrom_signed maxDepth _ 256

end FactorStudy.Grammar
