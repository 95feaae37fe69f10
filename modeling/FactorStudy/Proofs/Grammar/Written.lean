import FactorStudy.Proofs.Grammar.RoundTrip
import FactorStudy.Proofs.Evaluation.Nodes
import FactorStudy.Proofs.Decimal.Whole

/-!
# Numbers as they are written

The tree of a text holds doubles; which decimals they were read from cannot be told from it. A
derivation still has the decimals, and denotes a tree that keeps them (`Derivation.written`). Reading
the numbers of that tree gives the tree of the text (`Derivation.exists_written`), node by node
(`Written.nodes_tree`).
-/

namespace FactorStudy

/-- An expression with its numbers as written, each with the minus in front of it or without. -/
inductive Written where
  | number (minus : Bool) (numeral : Decimal.Numeral)
  | column (c : Column)
  | neg (operand : Written)
  | binary (op : BinaryOp) (left right : Written)
  | call (f : Builtin) (args : List Written)

namespace Written

/-- The double that a number is read as. -/
def double (minus : Bool) (numeral : Decimal.Numeral) : Float :=
  if minus then -numeral.toFloat else numeral.toFloat

mutual

/-- The expression in which every number is read. -/
def tree : Written → Expr
  | number minus numeral => .literal (double minus numeral)
  | column c => .column c
  | neg w => .neg w.tree
  | binary op l r => .binary op l.tree r.tree
  | call f args => .call f (treeAll args)

/-- The expressions of a list. -/
def treeAll : List Written → List Expr
  | [] => []
  | w :: ws => w.tree :: treeAll ws

end

mutual

/-- Every expression inside one, in preorder. -/
def nodes : Written → List Written
  | number minus numeral => [number minus numeral]
  | column c => [column c]
  | neg w => neg w :: w.nodes
  | binary op l r => binary op l r :: (l.nodes ++ r.nodes)
  | call f args => call f args :: nodesAll args

/-- Every expression inside those of a list. -/
def nodesAll : List Written → List Written
  | [] => []
  | w :: ws => w.nodes ++ nodesAll ws

end

theorem treeAll_eq_map (ws : List Written) : treeAll ws = ws.map tree := by
  induction ws with
  | nil => rfl
  | cons w ws ih => rw [treeAll, ih, List.map_cons]

/-- The nodes are those of the expression that is read. -/
theorem nodes_tree (w : Written) : w.tree.nodes = w.nodes.map tree := by
  -- one motive for an expression and one for the list of arguments it is nested in
  refine @Written.rec (fun w => w.tree.nodes = w.nodes.map tree)
    (fun ws => Expr.nodesAll (treeAll ws) = (nodesAll ws).map tree)
    (fun _ _ => rfl) (fun _ => rfl) ?_ ?_ ?_ rfl ?_ w
  · intro w ih
    rw [tree, Expr.nodes, ih, nodes, List.map_cons, tree]
  · intro op l r ihl ihr
    rw [tree, Expr.nodes, ihl, ihr, nodes, List.map_cons, List.map_append, tree]
  · intro f args ih
    rw [tree, Expr.nodes, ih, nodes, List.map_cons, tree]
  · intro w ws ih ihs
    rw [treeAll, Expr.nodesAll, ih, ihs, nodesAll, List.map_append]

/-- A minus is part of a number, and a node above anything else. -/
def negated : Written → Written
  | number minus numeral => number (!minus) numeral
  | w => neg w

theorem tree_negated (w : Written) : w.negated.tree = Grammar.negated w.tree := by
  cases w with
  | number minus numeral =>
    cases minus with
    | false => rfl
    | true =>
      show Expr.literal numeral.toFloat = .literal (- -numeral.toFloat)
      rw [Double.neg_neg]
  | _ => rfl

end Written

namespace Grammar

/-! ## What phrases write -/

variable {σ : Type}

/-- A chain is grouped to the left. -/
def Chain.written {ops : List BinaryOp} (W : σ → Option Written) (c : Chain ops σ) :
    Option Written :=
  (W c.first).bind fun first =>
    c.links.foldlM (fun left k => (W k.operand).map (Written.binary k.op left)) first

def sumWritten (W : σ → Option Written) : Sum σ → Option Written := Chain.written (Chain.written W)

def Primary.written (W : σ → Option Written) : Primary σ → Option Written
  | number token => some (.number false token.numeral)
  | group inner _ => sumWritten W inner
  | call name _ arguments => do
    let f ← Builtin.named? name.word
    let args ← arguments.toList.mapM (sumWritten W)
    return .call f args
  | column name => (Column.named? name.word).map Written.column

def Power.written (W : σ → Option Written) : Power σ → Option Written
  | plain base => base.written W
  | raised base _ exponent => do
    let b ← base.written W
    let e ← W exponent
    return .binary .pow b e

def SignedTerm.written (W : σ → Option Written) : SignedTerm σ → Option Written
  | minus _ operand => (W operand).map Written.negated
  | plain _ power => power.written W

def signedWritten : (n : Nat) → Signed n → Option Written
  | 0 => Empty.elim
  | n + 1 => SignedTerm.written (signedWritten n)

/-- The expression that a derivation writes. -/
def Derivation.written {n : Nat} (d : Derivation n) : Option Written :=
  sumWritten (signedWritten n) d.body

/-! ## Reading what is written -/

/-- Where phrases denote a tree, it is the one read from what they write. -/
def Records (S : Nonterminal σ) (W : σ → Option Written) : Prop :=
  ∀ {d e}, S.tree d = some e → ∃ w, W d = some w ∧ w.tree = e

section Levels

variable {S : Nonterminal σ} {W : σ → Option Written}

theorem chain_records {ops : List BinaryOp} (hS : Records S W) :
    Records (Chain.nonterminal ops S) (Chain.written W) := by
  -- the two folds keep step: what was read so far is the tree of what was written so far
  have hlinks : ∀ (links : List (Link ops σ)) (left : Written) {e : Expr},
      links.foldlM (Chain.extend S) left.tree = some e →
        ∃ w, links.foldlM (fun left k => (W k.operand).map (Written.binary k.op left)) left =
          some w ∧ w.tree = e := by
    intro links
    induction links with
    | nil =>
      intro left e h
      cases h
      exact ⟨left, rfl, rfl⟩
    | cons k links ih =>
      intro left e h
      rw [List.foldlM_cons] at h
      obtain ⟨e', he', h⟩ := Option.bind_eq_some_iff.mp h
      obtain ⟨right, hright, rfl⟩ := Chain.exists_of_extend he'
      obtain ⟨w, hw, rfl⟩ := hS hright
      rw [List.foldlM_cons, hw]
      exact ih (.binary k.op left w) h
  intro d e h
  obtain ⟨first, hfirst, h⟩ := Option.bind_eq_some_iff.mp h
  obtain ⟨w, hw, rfl⟩ := hS hfirst
  obtain ⟨w', hw', hread⟩ := hlinks d.links w h
  refine ⟨w', ?_, hread⟩
  rw [Chain.written, hw]
  exact hw'

theorem sums_records (hS : Records S W) : Records (sums S) (sumWritten W) :=
  chain_records (chain_records hS)

theorem mapM_records (hS : Records S W) (ds : List σ) :
    ∀ {es : List Expr}, ds.mapM S.tree = some es →
    ∃ ws, ds.mapM W = some ws ∧ Written.treeAll ws = es := by
  induction ds with
  | nil =>
    intro es h
    cases h
    exact ⟨[], rfl, rfl⟩
  | cons d ds ih =>
    intro es h
    obtain ⟨e, es', he, hes, rfl⟩ := exists_of_mapM_cons h
    obtain ⟨w, hw, rfl⟩ := hS he
    obtain ⟨ws, hws, rfl⟩ := ih hes
    refine ⟨w :: ws, ?_, rfl⟩
    rw [List.mapM_cons, hw, hws]
    rfl

theorem primary_records (hS : Records S W) :
    Records (Primary.nonterminal S) (Primary.written W) := by
  intro p e h
  cases p with
  | number token =>
    cases h
    exact ⟨_, rfl, rfl⟩
  | group inner close => exact sums_records hS h
  -- every argument has been recorded, and the call records their list
  | call name gap arguments =>
    obtain ⟨f, hf, h⟩ := Option.bind_eq_some_iff.mp h
    obtain ⟨args, hargs, h⟩ := Option.bind_eq_some_iff.mp h
    obtain rfl := eq_call_of_callOf h
    obtain ⟨ws, hws, rfl⟩ := mapM_records (sums_records hS) _ hargs
    refine ⟨.call f ws, ?_, rfl⟩
    rw [Primary.written, hf, hws]
    rfl
  | column name =>
    obtain ⟨c, hc, rfl⟩ := Option.map_eq_some_iff.mp h
    refine ⟨.column c, ?_, rfl⟩
    rw [Primary.written, hc]
    rfl

theorem power_records (hS : Records S W) : Records (Power.nonterminal S) (Power.written W) := by
  intro p e h
  cases p with
  | plain base => exact primary_records hS h
  | raised base gap exponent =>
    obtain ⟨b, hb, h⟩ := Option.bind_eq_some_iff.mp h
    obtain ⟨e', he', h⟩ := Option.bind_eq_some_iff.mp h
    cases h
    obtain ⟨wb, hwb, rfl⟩ := primary_records hS hb
    obtain ⟨we, hwe, rfl⟩ := hS he'
    refine ⟨.binary .pow wb we, ?_, rfl⟩
    rw [Power.written, hwb, hwe]
    rfl

theorem signedTerm_records (hS : Records S W) :
    Records (SignedTerm.nonterminal S) (SignedTerm.written W) := by
  intro d e h
  cases d with
  | minus gap operand =>
    obtain ⟨e', he', rfl⟩ := Option.map_eq_some_iff.mp h
    obtain ⟨w, hw, rfl⟩ := hS he'
    refine ⟨w.negated, ?_, w.tree_negated⟩
    rw [SignedTerm.written, hw]
    rfl
  | plain gap power => exact power_records hS h

end Levels

theorem signed_records (n : Nat) : Records (signedTerms n) (signedWritten n) := by
  induction n with
  | zero => exact fun {d} => d.elim
  | succ n ih => exact signedTerm_records ih

theorem Derivation.exists_written {n : Nat} {d : Derivation n} {e : Expr} (h : d.tree = some e) :
    ∃ w, d.written = some w ∧ w.tree = e :=
  sums_records (signed_records n) h

end Grammar

end FactorStudy
