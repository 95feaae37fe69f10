import FactorStudy.Proofs.Backtest.Returns
import FactorStudy.Proofs.Evaluation.Clean
import FactorStudy.Proofs.Evaluation.Nodes

/-!
# What functions are given

A node of an expression is computed from the series of its operands and from nothing else of them
(`eval_eq_compute`). In an accepted expression, what holds of the series of every node therefore holds
of all that a function or an operator is ever given: the series have one length, that of the panel,
and no infinities in them.
-/

namespace FactorStudy

open Series

namespace Expr

/-- The series that the top of an expression is computed from. A window is not one of them. -/
def operands (p : Panel Float) : Expr → List (List Float)
  | literal _ | column _ => []
  | neg e => [e.eval p]
  | binary _ l r => [l.eval p, r.eval p]
  | call f args => (args.take f.seriesArity).map (·.eval p)

/-- What the top of an expression makes of its operands. -/
def compute (p : Panel Float) : Expr → List (List Float) → List Float
  | literal v, _ => clean (List.replicate p.size v)
  | column c, _ => clean (p.column c)
  | neg _, series => negate (series.getD 0 [])
  | binary op _ _, series => op.apply (series.getD 0 []) (series.getD 1 [])
  | call f args, series => f.apply series (windowLength f args)

theorem eval_eq_compute (p : Panel Float) (e : Expr) : e.eval p = e.compute p (e.operands p) := by
  cases e with
  | literal v => rfl
  | column c => rfl
  | neg e => rfl
  | binary op l r => rfl
  | call f args => exact eval_call p f args

/-- A series with a value for each bar of the panel, finite or undefined. -/
structure SeriesOn (p : Panel Float) (x : List Float) : Prop where
  length_eq : x.length = p.size
  clean : Clean x

theorem Accepted.seriesOn_eval {e : Expr} (he : e.Accepted) (p : Panel Float) :
    SeriesOn p (e.eval p) := ⟨he.length_eval p, he.clean_eval p⟩

theorem Accepted.seriesOn_operands {e : Expr} (he : e.Accepted) (p : Panel Float) :
    ∀ x ∈ e.operands p, SeriesOn p x := by
  cases e with
  | literal v => exact fun x hx => absurd hx List.not_mem_nil
  | column c => exact fun x hx => absurd hx List.not_mem_nil
  | neg e => exact List.forall_mem_singleton.mpr (he.of_neg.seriesOn_eval p)
  | binary op l r =>
    obtain ⟨hl, hr⟩ := he.of_binary
    exact List.forall_mem_cons.mpr
      ⟨hl.seriesOn_eval p, List.forall_mem_singleton.mpr (hr.seriesOn_eval p)⟩
  | call f args =>
    intro x hx
    obtain ⟨a, ha, rfl⟩ := List.mem_map.mp hx
    exact (he.of_mem_args (List.mem_of_mem_take ha)).seriesOn_eval p

/-- **No infinities inside an evaluation.** Whatever an accepted text is evaluated on, the series of
every expression inside it has a value for each bar, finite or undefined, and so has every series
that a function or an operator in it is given to compute with.

Each node cleans what it has computed before anything else sees it; that a rank is not cleaned makes
no difference, since it is a count over a count. -/
theorem check_seriesOn {text : String} {e : Expr} (h : check text = .ok e) (p : Panel Float) :
    ∀ d ∈ e.nodes, SeriesOn p (d.eval p) ∧ d.eval p = d.compute p (d.operands p) ∧
      (∀ x ∈ d.operands p, SeriesOn p x) ∧
      ∀ f args, d = call f args → (d.operands p).length = f.seriesArity := by
  intro d hd
  have hd := (accepted_of_check h).of_mem_nodes hd
  refine ⟨hd.seriesOn_eval p, eval_eq_compute p d, hd.seriesOn_operands p, ?_⟩
  rintro f args rfl
  exact (List.length_map _).trans hd.length_series

/-- The rank of a bar's move among the moves of all bars. -/
def moveRank : Expr := .call (.transform .rank) [.binary .div (.column .close) (.column .open)]

/-- An infinite price does not get as far as a function. -/
theorem check_seriesOn_moveRank :
    check "rank((close / open))" = .ok moveRank ∧
      (fallFromInfinity.column .close)[0]? = some Number.infinity ∧
      ∀ d ∈ moveRank.nodes, SeriesOn fallFromInfinity (d.eval fallFromInfinity) ∧
        d.eval fallFromInfinity = d.compute fallFromInfinity (d.operands fallFromInfinity) ∧
        (∀ x ∈ d.operands fallFromInfinity, SeriesOn fallFromInfinity x) ∧
        ∀ f args, d = call f args → (d.operands fallFromInfinity).length = f.seriesArity := by
  have hcheck : check "rank((close / open))" = .ok moveRank := by
    have hrender : moveRank.render = "rank((close / open))" := by decide +kernel
    rw [← hrender]
    exact check_render (by decide +kernel) (by decide +kernel) (by decide +kernel) rfl
  exact ⟨hcheck, rfl, check_seriesOn hcheck fallFromInfinity⟩

end Expr

end FactorStudy
