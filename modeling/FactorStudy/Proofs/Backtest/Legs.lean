import Mathlib.Order.Bounds.Basic
import FactorStudy.Proofs.Backtest.Observations
import FactorStudy.Proofs.Double.Multiples

/-!
# What the portfolio holds

The portfolio is long in the highest layer with an observation and short in the lowest one. With
fewer observations than layers these need not be the outermost layers, and when all observations
share a layer there is nothing to hold. `Trades` says what the course of the portfolio is made of in
either case, and `InStep` that it has one entry for each observation.
-/

namespace FactorStudy

open Number

namespace Backtest

/-- The layers in which something was observed. -/
def occupied (observations : List (Observation Float)) : Set ℕ :=
  {layer | ∃ o ∈ observations, o.layer = layer}

section Extremes

variable {observations : List (Observation Float)} {lo hi : ℕ}

theorem min?_eq_some_iff :
    (observations.map (·.layer)).min? = some lo ↔ IsLeast (occupied observations) lo := by
  rw [List.min?_eq_some_iff, List.mem_map, List.forall_mem_map]
  constructor
  · rintro ⟨hmem, hle⟩
    refine ⟨hmem, ?_⟩
    rintro _ ⟨o, ho, rfl⟩
    exact hle o ho
  · rintro ⟨hmem, hle⟩
    exact ⟨hmem, fun o ho => hle ⟨o, ho, rfl⟩⟩

theorem max?_eq_some_iff :
    (observations.map (·.layer)).max? = some hi ↔ IsGreatest (occupied observations) hi := by
  rw [List.max?_eq_some_iff, List.mem_map, List.forall_mem_map]
  constructor
  · rintro ⟨hmem, hle⟩
    refine ⟨hmem, ?_⟩
    rintro _ ⟨o, ho, rfl⟩
    exact hle o ho
  · rintro ⟨hmem, hle⟩
    exact ⟨hmem, fun o ho => hle ⟨o, ho, rfl⟩⟩

theorem extremes?_eq_some_iff : extremes? observations = some (lo, hi) ↔
    IsLeast (occupied observations) lo ∧ IsGreatest (occupied observations) hi := by
  rw [← min?_eq_some_iff, ← max?_eq_some_iff, extremes?]
  cases (observations.map (·.layer)).min? <;> cases (observations.map (·.layer)).max? <;>
    simp [pure]

end Extremes

/-! ## Returns of the portfolio -/

/-- `r` is the return of a portfolio that is long layer `hi` and short layer `lo` on an
observation. Without a position it is 0, of either sign. -/
def Held (lo hi : ℕ) (o : Observation Float) (r : Float) : Prop :=
  if o.layer = hi then r = o.forward else if o.layer = lo then r = -o.forward else (r == 0) = true

theorem held_position (lo hi : ℕ) {o : Observation Float} (h : isFinite o.forward = true) :
    Held lo hi o (position lo hi o * o.forward) := by
  unfold Held position
  split
  · exact Double.one_mul_eq h
  · split
    · exact Double.neg_one_mul_eq h
    · exact Double.zero_mul_beq h

end Backtest

/-! ## The run of a backtest -/

theorem length_accumulate {α β : Type} (f : β → α → β) (x : List α) :
    ∀ state : β, (accumulate f state x).length = x.length := by
  induction x with
  | nil => intro _; rfl
  | cons v x ih => intro state; rw [accumulate, List.length_cons, List.length_cons, ih]

theorem Returns.length_drawdowns (equity : List Float) :
    (drawdowns equity).length = equity.length := by
  rw [drawdowns, List.length_zipWith, peaks, length_accumulate, Nat.min_self]

namespace Backtest

/-- The course of a portfolio has one entry for each observation. -/
structure InStep (bt : Backtest Float) : Prop where
  longShort : bt.longShort.length = bt.observations.length
  equity : bt.equity.length = bt.observations.length
  drawdown : bt.drawdown.length = bt.observations.length
  inTop : bt.inTop.length = bt.observations.length

section LongShort

variable {α : Type} [Number α] {factor : FactorSeries α} {panel : Panel α}
  {config : BacktestConfig α}

theorem longShort_run {lo hi : ℕ} (h : legs? (observe factor panel config) = some (lo, hi)) :
    (run factor panel config).longShort =
      (observe factor panel config).map fun o => position lo hi o * o.forward := by
  simp only [run, h]

theorem longShort_run_idle (h : legs? (observe factor panel config) = none) :
    (run factor panel config).longShort =
      List.replicate (observe factor panel config).length 0 := by
  simp only [run, h, List.map_const']

variable (factor panel config)

theorem observations_run :
    (run factor panel config).observations = observe factor panel config := rfl

theorem layers_run : (run factor panel config).layers =
    (List.range config.quantiles).map
      (Layers.summary (observe factor panel config) config.annualization) := rfl

end LongShort

section Run

variable {factor : FactorSeries Float} {panel : Panel Float} {config : BacktestConfig Float}

theorem numTrades_run {lo hi : ℕ} (h : legs? (observe factor panel config) = some (lo, hi)) :
    (run factor panel config).stats.numTrades =
      ((observe factor panel config).filter fun o => o.layer == lo || o.layer == hi).length := by
  simp only [run, h, Portfolio.stats, List.length_map]

variable (factor panel config)

theorem inStep_run : (run factor panel config).InStep := by
  have hlongShort : (run factor panel config).longShort.length =
      (observe factor panel config).length := by
    cases h : legs? (observe factor panel config) with
    | none => rw [longShort_run_idle h, List.length_replicate]
    | some legs => rw [longShort_run h, List.length_map]
  have hequity : (run factor panel config).equity.length = (observe factor panel config).length := by
    rw [← hlongShort]
    exact length_accumulate _ _ _
  refine ⟨hlongShort, hequity, ?_, ?_⟩
  · exact (Returns.length_drawdowns _).trans hequity
  · rw [observations_run]
    simp only [run]
    split <;> rw [List.length_map]

end Run

end Backtest

end FactorStudy
