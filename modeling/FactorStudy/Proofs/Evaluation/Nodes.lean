import FactorStudy.Proofs.Evaluation.Accepted

/-!
# The expressions inside an expression

A tree is walked in preorder: a node comes before its operands, and these come from left to right.
What is known of every node of an accepted tree is known of every call that an evaluation makes, and
the first fault that a check of the windows finds is the first one in this order.
-/

namespace FactorStudy.Expr

mutual

/-- Every expression inside a tree, the tree first. -/
def nodes : Expr → List Expr
  | literal v => [literal v]
  | column c => [column c]
  | neg e => neg e :: e.nodes
  | binary op l r => binary op l r :: (l.nodes ++ r.nodes)
  | call f args => call f args :: nodesAll args

/-- The expressions inside a list of trees. -/
def nodesAll : List Expr → List Expr
  | [] => []
  | e :: es => e.nodes ++ nodesAll es

end

theorem nodesAll_eq_flatMap (es : List Expr) : nodesAll es = es.flatMap nodes := by
  induction es with
  | nil => rfl
  | cons e es ih => rw [nodesAll, ih, List.flatMap_cons]

/-- What holds of a tree and passes from a node to its operands holds of every node. -/
theorem forall_mem_nodes {P : Expr → Prop} (neg : ∀ e, P (neg e) → P e)
    (binary : ∀ op l r, P (binary op l r) → P l ∧ P r)
    (call : ∀ f args, P (call f args) → ∀ e ∈ args, P e) {e : Expr} (he : P e) :
    ∀ d ∈ e.nodes, P d := by
  induction e using Expr.induction with
  | literal v =>
    intro d hd
    rwa [List.mem_singleton.mp hd]
  | column c =>
    intro d hd
    rwa [List.mem_singleton.mp hd]
  | neg e ih =>
    intro d hd
    rcases List.mem_cons.mp hd with rfl | hd
    · exact he
    · exact ih (neg e he) d hd
  | binary op l r ihl ihr =>
    obtain ⟨hl, hr⟩ := binary op l r he
    intro d hd
    rcases List.mem_cons.mp hd with rfl | hd
    · exact he
    · exact (List.mem_append.mp hd).elim (ihl hl d) (ihr hr d)
  | call f args ih =>
    intro d hd
    rcases List.mem_cons.mp hd with rfl | hd
    · exact he
    · rw [nodesAll_eq_flatMap, List.mem_flatMap] at hd
      obtain ⟨a, ha, hd⟩ := hd
      exact ih a ha (call f args he a ha) d hd

theorem Accepted.of_mem_nodes {e d : Expr} (he : e.Accepted) (hd : d ∈ e.nodes) : d.Accepted :=
  forall_mem_nodes (fun _ h => h.of_neg) (fun _ _ _ h => h.of_binary)
    (fun _ _ h _ => h.of_mem_args) he d hd

/-! ## The faults of windows -/

/-- What is wrong with the window of a node, by a rule for windows. -/
def windowError? (fault? : Builtin → Int → Option WindowFault) : Expr → Option WindowError
  | call f args => (windowOf f args).bind fun n => (fault? f n).map (WindowError.mk f)
  | _ => none

/-- Everything that is wrong with the windows in a tree, in preorder. -/
def windowErrors (fault? : Builtin → Int → Option WindowFault) (e : Expr) : List WindowError :=
  e.nodes.filterMap (windowError? fault?)

/-- The windows are collected in preorder. -/
theorem filterMap_windows (fault? : Builtin → Int → Option WindowFault) (e : Expr) :
    (e.windows.filterMap fun (f, n) => (fault? f n).map (WindowError.mk f)) =
      e.windowErrors fault? := by
  unfold windowErrors
  induction e using Expr.induction with
  | literal v => rfl
  | column c => rfl
  | neg e ih => exact ih
  | binary op l r ihl ihr =>
    rw [windows, nodes, List.filterMap_append, ihl, ihr, ← List.filterMap_append]
    rfl
  | call f args ih =>
    rw [windows, nodes, List.filterMap_append, windowsAll_eq_flatMap, nodesAll_eq_flatMap,
      List.filterMap_flatMap, List.filterMap_cons, List.filterMap_flatMap, windowError?]
    have hargs := List.flatMap_congr ih
    rw [hargs]
    -- a call reports its own window first, and a fault only if it has one
    cases windowOf f args with
    | none => rfl
    | some n => cases h : fault? f n <;> simp [h]

end FactorStudy.Expr
