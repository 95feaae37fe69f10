import FactorStudy.Proofs.Unrounded.Basic
import FactorStudy.Proofs.Backtest.Legs

/-!
# Losses and the drawdown

The drawdown of a run is the deepest fall of its equity from a peak, where a peak is the greatest
equity so far (`exists_isGreatest_highs`). What it has to do with the losses of the run is seen best
before rounding: on positive prices every number on the way from the closes to the drawdown is a
real number (`InReals`), and `LossesCounted` says how deep it is.

Prices that are positive do not keep the equity positive. A portfolio is short in the lowest layer,
and a price that more than doubles takes more from it than it has.
-/

namespace FactorStudy

open Number Unrounded

/-! ## Lists of results -/

/-- Results are carried over from one type to another if each step is. -/
theorem accumulate_map {α β γ δ : Type} {f : β → α → β} {g : δ → γ → δ} {k : δ → β} {h : γ → α}
    (hstep : ∀ s v, f (k s) (h v) = k (g s v)) (start : δ) (x : List γ) :
    accumulate f (k start) (x.map h) = (accumulate g start x).map k := by
  induction x generalizing start with
  | nil => rfl
  | cons v x ih => rw [List.map_cons, accumulate, accumulate, List.map_cons, hstep, ih]

/-- What holds at the start and is kept by each step holds of all results. -/
theorem forall_mem_accumulate {α β : Type} {f : β → α → β} {P : β → Prop} {x : List α}
    (hstep : ∀ s, P s → ∀ v ∈ x, P (f s v)) {start : β} (hstart : P start) :
    ∀ r ∈ accumulate f start x, P r := by
  induction x generalizing start with
  | nil => nofun
  | cons v x ih =>
    have hnext := hstep start hstart v List.mem_cons_self
    exact List.forall_mem_cons.mpr
      ⟨hnext, ih (fun s hs w hw => hstep s hs w (List.mem_cons_of_mem _ hw)) hnext⟩

/-- A result is the fold of the values up to its place. -/
theorem getElem?_accumulate {α β : Type} {f : β → α → β} {start : β} {x : List α} {t : ℕ}
    (ht : t < x.length) : (accumulate f start x)[t]? = some ((x.take (t + 1)).foldl f start) := by
  induction x generalizing start t with
  | nil => cases ht
  | cons v x ih =>
    cases t with
    | zero => rfl
    | succ t =>
      rw [accumulate, List.getElem?_cons_succ, ih (Nat.lt_of_succ_lt_succ ht), List.take_succ_cons,
        List.foldl_cons]

theorem isGreatest_foldl_max (values : List ℝ) (start : ℝ) :
    IsGreatest {v | v ∈ start :: values} (values.foldl max start) := by
  induction values generalizing start with
  | nil => exact ⟨List.mem_singleton_self _, fun v hv => (List.mem_singleton.mp hv).le⟩
  | cons e values ih =>
    -- from the second step on the greater of `start` and `e` takes the place of both
    obtain ⟨hmem, hbound⟩ := ih (max start e)
    have hmax := hbound List.mem_cons_self
    constructor
    · rcases List.mem_cons.mp hmem with h | h
      · rw [List.foldl_cons, h]
        rcases max_choice start e with h | h
        · rw [h]
          exact List.mem_cons_self
        · rw [h]
          exact List.mem_cons_of_mem _ List.mem_cons_self
      · exact List.mem_cons_of_mem _ (List.mem_cons_of_mem _ h)
    · intro v hv
      rcases List.mem_cons.mp hv with rfl | hv
      · exact (le_max_left _ _).trans hmax
      · rcases List.mem_cons.mp hv with rfl | hv
        · exact (le_max_right _ _).trans hmax
        · exact hbound (List.mem_cons_of_mem _ hv)

theorem le_foldl_min_iff {values : List ℝ} {start b : ℝ} :
    b ≤ values.foldl min start ↔ b ≤ start ∧ ∀ v ∈ values, b ≤ v := by
  induction values generalizing start with
  | nil => simp
  | cons v values ih => rw [List.foldl_cons, ih, le_min_iff, List.forall_mem_cons, and_assoc]

theorem Series.relativeChange_real (later : ℝ) {base : ℝ} (h : base ≠ 0) :
    relativeChange (real later) (real base) = real (later / base - 1) := by
  have hne : (real base == 0) = false := by
    rwa [← Bool.not_eq_true, zero_eq, real_beq_real]
  rw [relativeChange, hne, if_neg (by decide), one_eq, real_div later h, real_sub, orNaN_real]

namespace Returns

/-! ## Equity, peaks and losses in real numbers -/

/-- What 1 grows to. -/
noncomputable def growth (returns : List ℝ) : List ℝ :=
  accumulate (fun equity r => equity * (1 + r)) 1 returns

/-- The greatest value so far. -/
noncomputable def highs (equity : List ℝ) : List ℝ := accumulate max (equity.headD 0) equity

/-- How far a value lies below a positive peak. -/
noncomputable def lossFrom (value peak : ℝ) : ℝ := if 0 < peak then value / peak - 1 else 0

noncomputable def losses (equity : List ℝ) : List ℝ := equity.zipWith lossFrom (highs equity)

/-- The deepest of the losses. -/
noncomputable def deepest (equity : List ℝ) : ℝ := (losses equity).foldl min 0

theorem compound_real (returns : List ℝ) :
    compound (returns.map real) = (growth returns).map real := by
  rw [compound, one_eq]
  exact accumulate_map (fun e r => by rw [real_add, real_mul]) 1 returns

theorem peaks_real (equity : List ℝ) : peaks (equity.map real) = (highs equity).map real := by
  cases equity with
  | nil => rfl
  | cons e rest =>
    have hrest := accumulate_map (f := larger) (g := max) (h := real)
      (fun p v => larger_real p v) e rest
    rw [peaks, highs, List.headD_cons, List.map_cons, accumulate, accumulate, larger_negInfinity,
      max_self, List.map_cons, hrest]

theorem belowPeak_real (e p : ℝ) : belowPeak (real e) (real p) = real (lossFrom e p) := by
  rw [belowPeak, lossFrom, zero_eq, one_eq]
  by_cases hp : 0 < p
  · rw [if_pos hp, if_pos (real_lt_real.mpr hp), real_div e hp.ne', real_sub]
  · rw [if_neg hp, if_neg (mt real_lt_real.mp hp)]

theorem drawdowns_real (equity : List ℝ) :
    drawdowns (equity.map real) = (losses equity).map real := by
  rw [drawdowns, peaks_real, losses, List.zipWith_map, List.map_zipWith]
  simp only [belowPeak_real]

theorem foldl_smaller_real (values : List ℝ) (start : ℝ) :
    (values.map real).foldl smaller (real start) = real (values.foldl min start) := by
  induction values generalizing start with
  | nil => rfl
  | cons v values ih => rw [List.map_cons, List.foldl_cons, List.foldl_cons, smaller_real, ih]

/-- **A peak** is the greatest value up to its place. -/
theorem exists_isGreatest_highs {equity : List ℝ} {t : ℕ} (ht : t < equity.length) :
    ∃ p, (highs equity)[t]? = some p ∧ IsGreatest {v | v ∈ equity.take (t + 1)} p := by
  refine ⟨_, getElem?_accumulate ht, ?_⟩
  cases equity with
  | nil => cases ht
  | cons e equity =>
    rw [List.headD_cons, List.take_succ_cons, List.foldl_cons, max_self]
    exact isGreatest_foldl_max _ _

/-! ## The deepest loss -/

section Deepest

variable {equity : List ℝ} {s t : ℕ} {a b : ℝ}

theorem mem_losses_iff {d : ℝ} : d ∈ losses equity ↔
    ∃ (t : ℕ) (e p : ℝ), equity[t]? = some e ∧ (highs equity)[t]? = some p ∧ lossFrom e p = d := by
  rw [losses, List.mem_iff_getElem?]
  simp only [List.getElem?_zipWith_eq_some]

theorem deepest_nonpos : deepest equity ≤ 0 := (le_foldl_min_iff.mp le_rfl).1

theorem deepest_le {d : ℝ} (h : d ∈ losses equity) : deepest equity ≤ d :=
  (le_foldl_min_iff.mp le_rfl).2 d h

/-- Who never owes anything has not lost more than everything. -/
theorem neg_one_le_deepest (h : ∀ e ∈ equity, 0 ≤ e) : -1 ≤ deepest equity := by
  refine le_foldl_min_iff.mpr ⟨by norm_num, ?_⟩
  intro d hd
  obtain ⟨t, e, p, he, -, rfl⟩ := mem_losses_iff.mp hd
  rw [lossFrom]
  split
  · rename_i hp
    have := div_nonneg (h e (List.mem_of_getElem? he)) hp.le
    linarith
  · norm_num

/-- The loss counts from a peak, which is at least as high as any value before. -/
theorem exists_peak (hst : s ≤ t) (hs : equity[s]? = some a) (ht : equity[t]? = some b)
    (ha : 0 < a) : ∃ p, a ≤ p ∧ deepest equity ≤ b / p - 1 := by
  obtain ⟨p, hp, -, hbound⟩ := exists_isGreatest_highs (List.getElem?_eq_some_iff.mp ht).1
  have hmem : (equity.take (t + 1))[s]? = some a := by
    rw [List.getElem?_take_of_lt (by omega), hs]
  have hle : a ≤ p := hbound (List.mem_of_getElem? hmem)
  refine ⟨p, hle, deepest_le (mem_losses_iff.mpr ⟨t, b, p, ht, hp, ?_⟩)⟩
  rw [lossFrom, if_pos (ha.trans_le hle)]

theorem deepest_le_between (hst : s ≤ t) (hs : equity[s]? = some a) (ht : equity[t]? = some b)
    (ha : 0 < a) (hb : 0 ≤ b) : deepest equity ≤ b / a - 1 := by
  obtain ⟨p, hp, hdeep⟩ := exists_peak hst hs ht ha
  have hshare : b / p ≤ b / a := div_le_div_of_nonneg_left hb ha hp
  linarith

theorem deepest_lt_neg_one (hst : s ≤ t) (hs : equity[s]? = some a) (ht : equity[t]? = some b)
    (ha : 0 < a) (hb : b < 0) : deepest equity < -1 := by
  obtain ⟨p, hp, hdeep⟩ := exists_peak hst hs ht ha
  have hshare : b / p < 0 := div_neg_of_neg_of_pos hb (ha.trans_le hp)
  linarith

/-- An end below 1 is a loss from any value of at least 1. -/
theorem deepest_le_last (h : ∃ e ∈ equity, 1 ≤ e) (hlast : equity.getLast? = some b) (hb : 0 ≤ b) :
    deepest equity ≤ b - 1 := by
  obtain ⟨e, he, hone⟩ := h
  obtain ⟨s, hs⟩ := List.mem_iff_getElem?.mp he
  have hlt := (List.getElem?_eq_some_iff.mp hs).1
  rw [List.getLast?_eq_getElem?] at hlast
  have hbetween := deepest_le_between (by omega) hs hlast (by linarith) hb
  have hshare : b / e ≤ b := div_le_self hb hone
  linarith

theorem growth_nonneg {returns : List ℝ} (h : ∀ r ∈ returns, -1 ≤ r) :
    ∀ e ∈ growth returns, 0 ≤ e := by
  refine forall_mem_accumulate (fun e he r hr => ?_) zero_le_one
  exact mul_nonneg he (by linarith [h r hr])

end Deepest

end Returns

/-! ## Runs on positive prices -/

/-- All closes are positive numbers. -/
def Panel.PositiveCloses (panel : Panel Unrounded) : Prop :=
  ∀ v ∈ panel.column .close, ∃ x, 0 < x ∧ v = real x

namespace Backtest

/-- How the drawdown of a run stands to its losses. -/
structure LossesCounted (bt : Backtest Unrounded) : Prop where
  /-- The equity and the two figures are real numbers. -/
  finite : (∀ e ∈ bt.equity, isFinite e = true) ∧ isFinite bt.stats.maxDrawdown = true ∧
    isFinite bt.stats.totalReturn = true
  /-- The total return is the change from 1 to the end. -/
  total : bt.stats.totalReturn = bt.equity.getLast?.getD 1 - 1
  /-- A drawdown is a loss. -/
  nonpos : bt.stats.maxDrawdown ≤ 0
  /-- It is no more than everything for a portfolio that never owes anything, -/
  solvent : (∀ e ∈ bt.equity, 0 ≤ e) → -1 ≤ bt.stats.maxDrawdown
  /-- such as one that never loses more than everything at once, -/
  returns : (∀ r ∈ bt.longShort, -1 ≤ r) → ∀ e ∈ bt.equity, 0 ≤ e
  /-- and more for one that had something and owes something later. -/
  owing : ∀ (s t : ℕ) (a b : Unrounded), s ≤ t → bt.equity[s]? = some a → bt.equity[t]? = some b →
    0 < a → b < 0 → bt.stats.maxDrawdown < -1
  /-- No loss between two observations that leaves something or nothing is deeper. -/
  between : ∀ (s t : ℕ) (a b : Unrounded), s ≤ t → bt.equity[s]? = some a → bt.equity[t]? = some b →
    0 < a → 0 ≤ b → bt.stats.maxDrawdown ≤ b / a - 1
  /-- Nor is the loss at the end, if the equity stood at 1 or above. -/
  ending : (∃ e ∈ bt.equity, 1 ≤ e) → (∀ e, bt.equity.getLast? = some e → 0 ≤ e) →
    bt.stats.maxDrawdown ≤ smaller 0 bt.stats.totalReturn

section PositiveCloses

variable {factor : FactorSeries Unrounded} {panel : Panel Unrounded}
  {config : BacktestConfig Unrounded}

theorem exists_real_forward (h : panel.PositiveCloses) {o : Observation Unrounded}
    (ho : o ∈ observe factor panel config) : ∃ r, o.forward = real r := by
  obtain ⟨-, hforward, hdef⟩ := mem_aligned_iff.mp (mem_aligned_of_mem_observe ho)
  rcases Returns.eq_nan_or_change_of_mem (List.mem_of_getElem? hforward) with
    hnan | ⟨base, hbase, later, hlater, hchange⟩
  · rw [hnan] at hdef
    cases hdef
  · obtain ⟨x, hx, rfl⟩ := h base hbase
    obtain ⟨y, -, rfl⟩ := h later hlater
    rw [Series.relativeChange_real y hx.ne'] at hchange
    exact ⟨_, hchange⟩

theorem exists_real_position (bottom top : ℕ) (o : Observation Unrounded) :
    ∃ x, position bottom top o = real x := by
  unfold position
  split
  · exact ⟨1, one_eq⟩
  · split
    · exact ⟨-1, neg_one_eq⟩
    · exact ⟨0, zero_eq⟩

/-- The portfolio's returns are real numbers, with or without a position. -/
theorem exists_real_longShort (h : panel.PositiveCloses) :
    ∃ returns : List ℝ, (run factor panel config).longShort = returns.map real := by
  have hall : ∀ r ∈ (run factor panel config).longShort, ∃ x, real x = r := by
    intro r hr
    -- without two occupied layers nothing is held, and every return is 0
    cases hlegs : legs? (observe factor panel config) with
    | none =>
      rw [longShort_run_idle hlegs] at hr
      exact ⟨0, by rw [List.eq_of_mem_replicate hr, zero_eq]⟩
    | some legs =>
      rw [longShort_run hlegs] at hr
      obtain ⟨o, ho, rfl⟩ := List.mem_map.mp hr
      obtain ⟨x, hx⟩ := exists_real_position legs.1 legs.2 o
      obtain ⟨y, hy⟩ := exists_real_forward h ho
      exact ⟨x * y, by rw [hx, hy, real_mul]⟩
  obtain ⟨returns, h⟩ := (Set.range_list_map real).ge hall
  exact ⟨returns, h.symm⟩

theorem maxDrawdown_stats (equity : List ℝ) (active : List Unrounded) (annualization : Unrounded) :
    (Portfolio.stats (equity.map real) (Returns.drawdowns (equity.map real)) active
      annualization).maxDrawdown = real (Returns.deepest equity) := by
  show orZero ((Returns.drawdowns (equity.map real)).foldl smaller 0) = _
  rw [Returns.drawdowns_real, zero_eq, Returns.foldl_smaller_real, orZero_real]
  rfl

theorem totalReturn_stats (equity : List ℝ) (drawdown active : List Unrounded)
    (annualization : Unrounded) :
    (Portfolio.stats (equity.map real) drawdown active annualization).totalReturn =
      real (equity.getLast?.getD 1 - 1) := by
  show orZero (((equity.map real).getLast?.map (· - 1)).getD 0) = _
  rw [List.getLast?_map]
  cases equity.getLast? with
  | none => rw [Option.map_none, Option.map_none, Option.getD_none, Option.getD_none, zero_eq,
      orZero_real, sub_self]
  | some e => rw [Option.map_some, Option.map_some, Option.getD_some, Option.getD_some, one_eq,
      real_sub, orZero_real]

/-- A run whose equity and figures are real numbers. -/
structure InReals (bt : Backtest Unrounded) (equity : List ℝ) : Prop where
  course : bt.equity = equity.map real
  maxDrawdown : bt.stats.maxDrawdown = real (Returns.deepest equity)
  totalReturn : bt.stats.totalReturn = real (equity.getLast?.getD 1 - 1)
  nonneg : (∀ r ∈ bt.longShort, -1 ≤ r) → ∀ e ∈ equity, 0 ≤ e

theorem inReals_run {returns : List ℝ}
    (h : (run factor panel config).longShort = returns.map real) :
    (run factor panel config).InReals (Returns.growth returns) := by
  have hequity : (run factor panel config).equity = (Returns.growth returns).map real := by
    rw [← Returns.compound_real, ← h]
    rfl
  -- both figures are computed from the equity alone
  refine ⟨hequity, ?_, ?_, ?_⟩
  · show (Portfolio.stats (run factor panel config).equity
      (Returns.drawdowns (run factor panel config).equity) _ _).maxDrawdown = _
    rw [hequity, maxDrawdown_stats]
  · show (Portfolio.stats (run factor panel config).equity _ _ _).totalReturn = _
    rw [hequity, totalReturn_stats]
  · intro hall
    rw [h, neg_one_eq] at hall
    exact Returns.growth_nonneg fun r hr => real_le_real.mp (hall _ (List.mem_map_of_mem hr))

section InReals

variable {bt : Backtest Unrounded} {equity : List ℝ}

theorem InReals.getElem? (h : bt.InReals equity) {t : ℕ} {v : Unrounded}
    (hv : bt.equity[t]? = some v) : ∃ x, equity[t]? = some x ∧ real x = v := by
  rwa [h.course, List.getElem?_map, Option.map_eq_some_iff] at hv

theorem InReals.mem (h : bt.InReals equity) {v : Unrounded} (hv : v ∈ bt.equity) :
    ∃ x ∈ equity, real x = v := by
  rwa [h.course, List.mem_map] at hv

theorem InReals.solvent (h : bt.InReals equity) (hsolvent : ∀ e ∈ bt.equity, 0 ≤ e) :
    -1 ≤ bt.stats.maxDrawdown := by
  rw [h.maxDrawdown, neg_one_eq, real_le_real]
  refine Returns.neg_one_le_deepest fun e he => ?_
  have hpos := hsolvent (real e) (h.course ▸ List.mem_map_of_mem he)
  rwa [zero_eq, real_le_real] at hpos

theorem InReals.owing (h : bt.InReals equity) {s t : ℕ} {v w : Unrounded} (hst : s ≤ t)
    (hv : bt.equity[s]? = some v) (hw : bt.equity[t]? = some w) (hpos : 0 < v) (hneg : w < 0) :
    bt.stats.maxDrawdown < -1 := by
  obtain ⟨a, ha, rfl⟩ := h.getElem? hv
  obtain ⟨b, hb, rfl⟩ := h.getElem? hw
  rw [zero_eq, real_lt_real] at hpos hneg
  rw [h.maxDrawdown, neg_one_eq, real_lt_real]
  exact Returns.deepest_lt_neg_one hst ha hb hpos hneg

theorem InReals.between (h : bt.InReals equity) {s t : ℕ} {v w : Unrounded} (hst : s ≤ t)
    (hv : bt.equity[s]? = some v) (hw : bt.equity[t]? = some w) (hpos : 0 < v) (hnonneg : 0 ≤ w) :
    bt.stats.maxDrawdown ≤ w / v - 1 := by
  obtain ⟨a, ha, rfl⟩ := h.getElem? hv
  obtain ⟨b, hb, rfl⟩ := h.getElem? hw
  rw [zero_eq, real_lt_real] at hpos
  rw [zero_eq, real_le_real] at hnonneg
  rw [h.maxDrawdown, real_div b hpos.ne', one_eq, real_sub, real_le_real]
  exact Returns.deepest_le_between hst ha hb hpos hnonneg

theorem InReals.ending (h : bt.InReals equity) (hone : ∃ e ∈ bt.equity, 1 ≤ e)
    (hend : ∀ e, bt.equity.getLast? = some e → 0 ≤ e) :
    bt.stats.maxDrawdown ≤ smaller 0 bt.stats.totalReturn := by
  obtain ⟨v, hv, hone⟩ := hone
  obtain ⟨e, he, rfl⟩ := h.mem hv
  rw [one_eq, real_le_real] at hone
  have hlast := List.getLast?_eq_some_getLast (List.ne_nil_of_mem he)
  have hnonneg := hend (real (equity.getLast (List.ne_nil_of_mem he)))
    (by rw [h.course, List.getLast?_map, hlast, Option.map_some])
  rw [zero_eq, real_le_real] at hnonneg
  rw [h.maxDrawdown, h.totalReturn, hlast, Option.getD_some, zero_eq, smaller_real, real_le_real,
    le_min_iff]
  exact ⟨Returns.deepest_nonpos, Returns.deepest_le_last ⟨e, he, hone⟩ hlast hnonneg⟩

theorem InReals.lossesCounted (h : bt.InReals equity) : bt.LossesCounted where
  finite := by
    rw [h.maxDrawdown, h.totalReturn]
    refine ⟨fun v hv => ?_, rfl, rfl⟩
    obtain ⟨x, -, rfl⟩ := h.mem hv
    exact isFinite_real x
  total := by
    rw [h.totalReturn, h.course, List.getLast?_map, one_eq, Option.getD_map, real_sub]
  nonpos := by
    rw [h.maxDrawdown, zero_eq, real_le_real]
    exact Returns.deepest_nonpos
  solvent := h.solvent
  returns hreturns v hv := by
    obtain ⟨x, hx, rfl⟩ := h.mem hv
    rw [zero_eq, real_le_real]
    exact h.nonneg hreturns x hx
  owing _ _ _ _ := h.owing
  between _ _ _ _ := h.between
  ending := h.ending

end InReals

/-- **Losses and the drawdown.** Before rounding, the drawdown of a run on positive prices is no
gain and at least as deep as the losses from one observation to a later one. It can be more than
everything, but only for a portfolio that comes to owe something.

The first peak is the equity after the first observation and not the 1 that the portfolio started
from, so a loss on the first day is not counted. That is why the loss in total is bounded only when
the equity has stood at 1 or above. -/
theorem lossesCounted_run (factor : FactorSeries Unrounded) (config : BacktestConfig Unrounded)
    (h : panel.PositiveCloses) : (run factor panel config).LossesCounted := by
  obtain ⟨returns, hreturns⟩ := exists_real_longShort h
  exact (inReals_run hreturns).lossesCounted

end PositiveCloses

end Backtest

/-! ## A short position -/

/-- Five days in a row. -/
def fiveDays : List Timestamp :=
  [.midnight ⟨2019, 11, 4, by decide, by decide, by decide⟩,
    .midnight ⟨2019, 11, 5, by decide, by decide, by decide⟩,
    .midnight ⟨2019, 11, 6, by decide, by decide, by decide⟩,
    .midnight ⟨2019, 11, 7, by decide, by decide, by decide⟩,
    .midnight ⟨2019, 11, 8, by decide, by decide, by decide⟩]

/-- A price of 1 that moves on two days and then stands still. -/
noncomputable def moving (a b : ℝ) : Panel Unrounded where
  symbol := "TEST"
  interval := .daily
  bars := fiveDays.zipWith
    (fun day close => ⟨day, real close, real close, real close, real close, real 1⟩) [1, a, b, b, b]
  increasing := by
    have hdays : fiveDays.Pairwise (· < ·) := by decide
    exact List.pairwise_map.mp hdays

/-- A factor that grows from day to day. -/
noncomputable def growing : FactorSeries Unrounded :=
  .ofValues ((List.range 5).map fun k : ℕ => real k)

theorem three_mem_quantileChoices : 3 ∈ quantileChoices := by decide

/-- Returns over one day in three layers. -/
noncomputable def overnight : BacktestConfig Unrounded :=
  ⟨1, 3, real 252, Nat.one_pos, three_mem_quantileChoices⟩

section Moving

variable {a b : ℝ}

theorem close_moving : (moving a b).column .close = [1, a, b, b, b].map real := rfl

theorem positiveCloses_moving (ha : 0 < a) (hb : 0 < b) : (moving a b).PositiveCloses := by
  intro v hv
  rw [close_moving] at hv
  obtain ⟨x, hx, rfl⟩ := List.mem_map.mp hv
  have hall : ∀ x ∈ [1, a, b, b, b], 0 < x := by
    simp only [List.forall_mem_cons]
    exact ⟨one_pos, ha, hb, hb, hb, nofun⟩
  exact ⟨x, hall x hx, rfl⟩

theorem observe_moving (ha : 0 < a) (hb : 0 < b) :
    Backtest.observe growing (moving a b) overnight =
      [⟨0, real (0 : ℕ), real (a - 1), 0⟩, ⟨1, real (1 : ℕ), real (b / a - 1), 0⟩,
        ⟨2, real (2 : ℕ), real 0, 1⟩, ⟨3, real (3 : ℕ), real 0, 2⟩] := by
  have hforward : Returns.forward ((moving a b).column .close) 1 =
      [real (a - 1), real (b / a - 1), real 0, real 0, nan] := by
    show [Series.relativeChange (real a) (real 1), Series.relativeChange (real b) (real a),
      Series.relativeChange (real b) (real b), Series.relativeChange (real b) (real b), nan] = _
    rw [Series.relativeChange_real a one_ne_zero, Series.relativeChange_real b ha.ne',
      Series.relativeChange_real b hb.ne', div_one, div_self hb.ne', sub_self]
  have hpoints : Backtest.aligned growing.values
      (Returns.forward ((moving a b).column .close) overnight.periods) =
        [(0, real (0 : ℕ), real (a - 1)), (1, real (1 : ℕ), real (b / a - 1)),
          (2, real (2 : ℕ), real 0), (3, real (3 : ℕ), real 0)] := by
    rw [show overnight.periods = 1 from rfl, hforward]
    rfl
  -- the values rise with the days, so the layers are those of the days
  have hassign : Layers.assign ((List.range 4).map fun k : ℕ => real k) overnight.quantiles =
      [0, 0, 1, 2] := by
    refine Layers.assign_of_ascending (List.pairwise_map.mpr ?_) _
    refine List.pairwise_lt_range.imp fun h => totalLe_real_iff.mpr ?_
    exact_mod_cast h.le
  rw [Backtest.observe, hpoints]
  show List.zipWith _ _ (Layers.assign ((List.range 4).map fun k : ℕ => real k) _) = _
  rw [hassign]
  rfl

/-- The portfolio is short on the days on which the price moves. -/
theorem longShort_moving (ha : 0 < a) (hb : 0 < b) :
    (Backtest.run growing (moving a b) overnight).longShort =
      [1 - a, 1 - b / a, 0, 0].map real := by
  simp only [Backtest.run, observe_moving ha hb]
  show [-1 * real (a - 1), -1 * real (b / a - 1), 0 * real 0, 1 * real 0] = _
  rw [neg_one_eq, zero_eq, one_eq]
  simp only [real_mul, List.map_cons, List.map_nil]
  norm_num

theorem inReals_moving (ha : 0 < a) (hb : 0 < b) :
    (Backtest.run growing (moving a b) overnight).InReals
      [2 - a, (2 - a) * (2 - b / a), (2 - a) * (2 - b / a), (2 - a) * (2 - b / a)] := by
  have hreals := Backtest.inReals_run (longShort_moving ha hb)
  have hgrowth : Returns.growth [1 - a, 1 - b / a, 0, 0] =
      [2 - a, (2 - a) * (2 - b / a), (2 - a) * (2 - b / a), (2 - a) * (2 - b / a)] := by
    simp only [Returns.growth, accumulate]
    ring_nf
  rwa [hgrowth] at hreals

end Moving

/-- Short of a price that rises by one half the portfolio loses one half, and the drawdown counts
it. -/
theorem lossesCounted_halved : (moving 1 (3 / 2)).PositiveCloses ∧
    (Backtest.run growing (moving 1 (3 / 2)) overnight).stats.maxDrawdown ≤ real (-1 / 2) := by
  have hpositive : (moving 1 (3 / 2)).PositiveCloses :=
    positiveCloses_moving (by norm_num) (by norm_num)
  refine ⟨hpositive, ?_⟩
  have hreals := inReals_moving (a := 1) (b := 3 / 2) (by norm_num) (by norm_num)
  have hcounted := Backtest.lossesCounted_run growing overnight hpositive
  have hloss := hcounted.between 0 3 (real 1) (real (1 / 2)) (by norm_num)
    (by rw [hreals.course]; norm_num) (by rw [hreals.course]; norm_num)
    (by rw [zero_eq, real_lt_real]; norm_num) (by rw [zero_eq, real_le_real]; norm_num)
  rw [real_div _ one_ne_zero, one_eq, real_sub] at hloss
  norm_num at hloss ⊢
  exact hloss

/-- A short position on a price that triples loses twice what there was, and a loss of one half on
the first day leaves no drawdown. -/
theorem maxDrawdown_beyond :
    ((moving 1 3).PositiveCloses ∧
      ¬ -1 ≤ (Backtest.run growing (moving 1 3) overnight).stats.maxDrawdown) ∧
    ((moving (3 / 2) (3 / 2)).PositiveCloses ∧
      ¬ (Backtest.run growing (moving (3 / 2) (3 / 2)) overnight).stats.maxDrawdown ≤
        smaller 0 (Backtest.run growing (moving (3 / 2) (3 / 2)) overnight).stats.totalReturn) := by
  refine ⟨⟨positiveCloses_moving (by norm_num) (by norm_num), ?_⟩,
    positiveCloses_moving (by norm_num) (by norm_num), ?_⟩
  · -- the deepest loss is from the first observation to the second
    have hreals := inReals_moving (a := 1) (b := 3) (by norm_num) (by norm_num)
    rw [hreals.maxDrawdown, neg_one_eq, real_le_real, not_le]
    exact Returns.deepest_lt_neg_one (s := 0) (t := 1) zero_le_one rfl rfl (by norm_num)
      (by norm_num)
  · have hreals := inReals_moving (a := 3 / 2) (b := 3 / 2) (by norm_num) (by norm_num)
    rw [hreals.maxDrawdown, hreals.totalReturn, zero_eq, smaller_real, real_le_real, not_le]
    norm_num [Returns.deepest, Returns.losses, Returns.highs, Returns.lossFrom, accumulate]

end FactorStudy
