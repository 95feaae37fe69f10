import FactorStudy.Config.Settings
import FactorStudy.Proofs.Backtest.Course
import FactorStudy.Proofs.Outcome
import FactorStudy.Proofs.Report.Numbers
import FactorStudy.Proofs.Stats.Score
import FactorStudy.Stats.StudentT

/-!
# When the figures of an analysis are numbers

Most figures are made finite when they are reported, or are shares of counts, or correlations, and
cannot be anything but finite. What is left is reported as it was computed: the mean win and the
mean loss, which overflow with the sums they are taken from, the score, whose weights may overflow,
and the probability of the t-test. `InRange` names these computations, and `run_finite_iff` says
that everything depends on them, also whether a stored result can be read again.
-/

namespace FactorStudy

open Number

/-! ## Statistics -/

/-- A correlation is computed as some finite value, and then limited to the range from -1 to 1. -/
theorem Series.exists_clamp_of_pearson? {x y : List Float} {r : Float} (h : pearson? x y = some r) :
    ∃ c, isFinite c = true ∧ r = clamp (-1) 1 c := by
  unfold pearson? at h
  simp only at h
  split at h
  · cases h
  · split at h
    · cases h
    · obtain ⟨c, hc, rfl⟩ := Option.map_eq_some_iff.mp h
      obtain ⟨rfl, hfinite⟩ := Double.finite?_eq_some_iff.mp hc
      exact ⟨_, hfinite, rfl⟩

/-- A correlation is at most 1 in size. -/
theorem Series.isFinite_of_pearson? {x y : List Float} {r : Float} (h : pearson? x y = some r) :
    isFinite r = true := by
  obtain ⟨c, hc, rfl⟩ := Series.exists_clamp_of_pearson? h
  rw [Double.isFinite_clamp rfl rfl, Double.isNaN_of_isFinite hc]
  rfl

/-- A mean, or 0 where there is nothing, overflows with the sum. -/
theorem Series.isFinite_mean {x : List Float} (hlt : x.length < 2 ^ 64) :
    isFinite ((mean? x).getD 0) = isFinite (sum x) := by
  cases x with
  | nil => rfl
  | cons v x => exact Double.isFinite_average (Nat.succ_pos _) hlt

namespace Ic

def Summary.numbers (s : Summary) : List Float :=
  [s.mean, s.std, s.ratio, s.tStat, s.pValue, s.positiveShare]

section TTest

variable [TDistribution] (mean std : Float) (n : ℕ)

/-- A statistic that is not finite is not reported. -/
theorem isFinite_tStat : isFinite (tTest mean std n).1 = true := by
  unfold tTest
  split
  · rfl
  · simp only
    split
    · assumption
    · rfl

/-- A probability is finite as soon as it is defined. -/
theorem isFinite_pValue : isFinite (tTest mean std n).2 = !isNaN (tTest mean std n).2 := by
  have hone : isFinite (1 : Float) = !isNaN (1 : Float) := rfl
  unfold tTest
  split
  · exact hone
  · simp only
    split
    · rw [Double.isFinite_clamp rfl rfl, Double.isNaN_clamp rfl rfl]
    · exact hone

end TTest

theorem isFinite_positiveShare [TDistribution] {ic : List Float} (hlt : ic.length < 2 ^ 64) :
    isFinite (summary ic).positiveShare = true := by
  have hle : (Series.defined ic).length ≤ ic.length := List.length_filter_le _ _
  simp only [summary]
  split
  · rfl
  · rename_i hsome
    exact Double.isFinite_share_count List.countP_le_length hsome (by omega)

/-- Of the figures of an IC series only the probability can be undefined. -/
theorem isFinite_summary_iff [TDistribution] (ic : List Float)
    (hlt : ic.length < 2 ^ 64) :
    (∀ v ∈ (summary ic).numbers, isFinite v = true) ↔ isNaN (summary ic).pValue = false := by
  have hpValue : isFinite (summary ic).pValue = !isNaN (summary ic).pValue := isFinite_pValue _ _ _
  simp only [Summary.numbers, List.forall_mem_cons]
  rw [hpValue, Bool.not_eq_true']
  constructor
  · exact fun h => h.2.2.2.2.1
  · intro h
    exact ⟨Double.isFinite_orZero _, Double.isFinite_orZero _, Double.isFinite_orZero _,
      isFinite_tStat _ _ _, h, isFinite_positiveShare hlt, List.forall_mem_nil _⟩

theorem isFinite_turnover {inTop : List Bool} (hlt : inTop.length < 2 ^ 64) :
    isFinite (turnover inTop : Float) = true := by
  unfold turnover
  split
  · rfl
  · refine Double.isFinite_share ?_ (by omega) (by omega)
    refine List.countP_le_length.trans ?_
    rw [List.length_zip, List.length_tail]
    omega

theorem isFinite_of_mem_monthly {times : List Timestamp} {factor returns : List Float} {least : ℕ}
    {p : (Int × Nat) × Float} (h : p ∈ monthly times factor returns least) :
    isFinite p.2 = true := by
  obtain ⟨run, -, hrun⟩ := List.mem_filterMap.mp h
  cases run with
  | nil => cases hrun
  | cons first run =>
    simp only at hrun
    split at hrun
    · cases hrun
    · obtain ⟨ic, hic, rfl⟩ := Option.map_eq_some_iff.mp hrun
      exact Series.isFinite_of_pearson? hic

end Ic

/-- The figures of a layer are finite. -/
theorem Layers.isFinite_summary {observations : List (Observation Float)}
    (hlt : observations.length < 2 ^ 64) (annualization : Float) (layer : ℕ) :
    ∀ v ∈ (summary observations annualization layer).numbers, isFinite v = true := by
  have hle : ((observations.filter fun o => o.layer == layer).map (·.forward)).length ≤
      observations.length := by
    rw [List.length_map]
    exact List.length_filter_le _ _
  simp only [LayerSummary.numbers, summary, List.forall_mem_cons]
  refine ⟨Double.isFinite_orZero _, Double.isFinite_orZero _, Double.isFinite_orZero _, ?_,
    List.forall_mem_nil _⟩
  split
  · rfl
  · rename_i hsome
    exact Double.isFinite_share_count List.countP_le_length hsome (by omega)

/-! ## The portfolio -/

def PortfolioStats.numbers (s : PortfolioStats Float) : List Float :=
  [s.sharpe, s.sortino, s.calmar, s.winRate, s.profitFactor, s.avgWin, s.avgLoss, s.maxDrawdown,
    s.totalReturn, s.annualizedReturn, s.annualizedVol]

/-- Of the figures of a portfolio only the mean win and the mean loss can overflow, and they do when
the sums do. -/
theorem Portfolio.isFinite_stats_iff (active : List Float) (hlt : active.length < 2 ^ 64)
    (equity drawdown : List Float) (annualization : Float) :
    (∀ v ∈ (stats equity drawdown active annualization).numbers, isFinite v = true) ↔
      isFinite (sum (wins active)) = true ∧ isFinite (sum (losses active)) = true := by
  have hwins : (wins active).length ≤ active.length := List.length_filter_le _ _
  have hlosses : (losses active).length ≤ active.length := List.length_filter_le _ _
  -- the win rate is a share of the trades, or one half if there are none
  have hwinRate : isFinite (if active.isEmpty then (0.5 : Float)
      else ofNat (wins active).length / count active) = true := by
    split
    · decide +kernel
    · exact Double.isFinite_share_count hwins ‹_› hlt
  simp only [PortfolioStats.numbers, stats, List.forall_mem_cons]
  rw [Series.isFinite_mean (by omega), Series.isFinite_mean (by omega)]
  simp only [Double.isFinite_orZero, hwinRate, true_and]
  exact and_congr_right fun _ => and_iff_left (List.forall_mem_nil _)

namespace Backtest

section Run

variable (factor : FactorSeries Float) (panel : Panel Float) (config : BacktestConfig Float)

/-- There are no more observations than bars. -/
theorem length_observations_le : (run factor panel config).observations.length ≤ panel.size := by
  have hmap := congrArg List.length (map_observe factor panel config)
  have hfilter : (points factor panel config).length ≤
      (factor.values.zip (Returns.forward (panel.column .close) config.periods)).length := by
    rw [points, aligned, List.length_map]
    refine (List.length_filter_le _ _).trans ?_
    rw [List.length_zipIdx]
  rw [List.length_zip, Returns.forward, List.length_map, List.length_zipIdx, Panel.column,
    List.length_map] at hfilter
  rw [List.length_map] at hmap
  rw [observations_run, hmap, Panel.size]
  omega

/-- Returns without a position are left out by whatever leaves out what counts as 0. -/
theorem filter_active {observations : List (Observation Float)} {lo hi : ℕ} {p : Float → Bool}
    (hp : ∀ r : Float, (r == 0) = true → p r = false)
    (hfinite : ∀ o ∈ observations, isFinite o.forward = true) :
    ((observations.filter fun o => o.layer == lo || o.layer == hi).map fun o =>
      position lo hi o * o.forward).filter p =
    (observations.map fun o => position lo hi o * o.forward).filter p := by
  rw [List.filter_map, List.filter_map, List.filter_filter]
  congr 1
  refine List.filter_congr ?_
  intro o ho
  rw [Bool.and_eq_left_iff_imp]
  intro hret
  by_contra hidle
  simp only [Bool.or_eq_true, beq_iff_eq, not_or] at hidle
  -- a return without a position is a product with 0
  have hheld := held_position lo hi (hfinite o ho)
  rw [Held, if_neg hidle.2, if_neg hidle.1] at hheld
  have hnot := hp _ hheld
  rw [Function.comp_apply, hnot] at hret
  cases hret

theorem decide_lt_eq_false {r : Float} (h : (r == 0) = true) :
    decide (0 < r) = false ∧ decide (r < 0) = false :=
  ⟨decide_eq_false (Double.not_lt_of_beq_zero h).1, decide_eq_false (Double.not_lt_of_beq_zero h).2⟩

/-- The figures are computed from the returns with a position, which have all wins and losses. -/
theorem exists_active : ∃ active : List Float,
    (run factor panel config).stats = Portfolio.stats (run factor panel config).equity
      (run factor panel config).drawdown active config.annualization ∧
    active.length ≤ (run factor panel config).observations.length ∧
    Portfolio.wins active = Portfolio.wins (run factor panel config).longShort ∧
    Portfolio.losses active = Portfolio.losses (run factor panel config).longShort := by
  have hobserves := observes_observe factor panel config
  cases h : legs? (observe factor panel config) with
  | none =>
    -- nothing is held, so nothing is won or lost
    refine ⟨[], ?_, Nat.zero_le _, ?_, ?_⟩
    · simp only [run, h]
    · rw [longShort_run_idle h, Portfolio.wins, Portfolio.wins, List.filter_replicate]
      rfl
    · rw [longShort_run_idle h, Portfolio.losses, Portfolio.losses, List.filter_replicate]
      rfl
  | some legs =>
    refine ⟨((observe factor panel config).filter fun o =>
      o.layer == legs.1 || o.layer == legs.2).map fun o =>
        position legs.1 legs.2 o * o.forward, ?_, ?_, ?_, ?_⟩
    · simp only [run, h]
    · rw [List.length_map]
      exact List.length_filter_le _ _
    · rw [longShort_run h]
      exact filter_active (fun r hr => (decide_lt_eq_false hr).1)
        fun o ho => hobserves.isFinite_forward ho
    · rw [longShort_run h]
      exact filter_active (fun r hr => (decide_lt_eq_false hr).2)
        fun o ho => hobserves.isFinite_forward ho

end Run

end Backtest

/-! ## Settings that were accepted -/

namespace Settings

theorem validate_of_policyOf {c : Config} {p : ScorePolicy Float} (h : policyOf c = .ok p) :
    p.validate = .ok () := by
  obtain ⟨⟨⟩, hcheck, h⟩ := exists_of_bind_eq_ok h
  cases h
  exact eq_ok_of_mapError_eq_ok hcheck

/-- An accepted configuration has an accepted policy. -/
theorem validate_of_ofConfig {c : Config} {settings : Settings} (h : ofConfig c = .ok settings) :
    settings.score.validate = .ok () := by
  obtain ⟨_, -, h⟩ := exists_of_bind_eq_ok h
  -- the seven counts
  iterate 7 obtain ⟨_, -, h⟩ := exists_of_bind_eq_ok h
  obtain ⟨policy, hpolicy, h⟩ := exists_of_bind_eq_ok h
  cases h
  exact validate_of_policyOf hpolicy

end Settings

/-! ## The analysis -/

namespace Analysis

/-- The measures that a score was made of. -/
def measures (m : Metrics) : Score.Measures Float where
  icMean := m.icMean
  icRatio := m.icIr
  sharpe := m.sharpe
  winRate := m.winRate
  maxDrawdown := m.maxDrawdown

/-- The computations whose results are reported as they are. -/
structure InRange (settings : Settings) (bt : Backtest Float) (m : Metrics) : Prop where
  /-- The sum of the wins does not overflow. -/
  wins : isFinite (sum (Portfolio.wins bt.longShort)) = true
  /-- Nor does that of the losses. -/
  losses : isFinite (sum (Portfolio.losses bt.longShort)) = true
  /-- The probability of the t-test is defined. -/
  pValue : isNaN m.pValue = false
  /-- The weights of the score and the weighted contributions do not both overflow. -/
  score : isFinite (sum settings.score.weights) = true ∨
    isFinite (Score.earned (measures m) settings.score) = true

section Run

variable [TDistribution] (factor : FactorSeries Float) (panel : Panel Float)
  (config : BacktestConfig Float) {c : Config} {settings : Settings}

/-- The figures are those of the IC series, those of the portfolio and four more. -/
theorem numbers_run : (run factor panel config settings).metrics.numbers =
    (Backtest.run factor panel config).spread ::
      ((Ic.summary (rollingIc (Backtest.run factor panel config) settings)).numbers ++
        ((Backtest.run factor panel config).stats.numbers ++
          [Ic.turnover (Backtest.run factor panel config).inTop,
            orZero (Ic.autocorrelation factor.values),
            Score.composite (measures (run factor panel config settings).metrics)
              settings.score])) := by
  simp only [run, Metrics.numbers, Metrics.named, Ic.Summary.numbers, PortfolioStats.numbers,
    measures, rollingIc, List.map_cons, List.map_nil, List.cons_append, List.nil_append]

theorem pValue_run : (run factor panel config settings).metrics.pValue =
    (Ic.summary (rollingIc (Backtest.run factor panel config) settings)).pValue := by
  simp only [run, rollingIc]

theorem isFinite_metrics_iff (hsettings : Settings.ofConfig c = .ok settings)
    (hsize : panel.size < 2 ^ 64) :
    (∀ v ∈ (run factor panel config settings).metrics.numbers, isFinite v = true) ↔
      InRange settings (Backtest.run factor panel config)
        (run factor panel config settings).metrics := by
  have hlength := Backtest.length_observations_le factor panel config
  have hic := Ic.isFinite_summary_iff (rollingIc (Backtest.run factor panel config) settings)
    (by rw [(rated_run factor panel config settings).rollingIc]; omega)
  rw [← pValue_run] at hic
  obtain ⟨active, hstats, hactive, hwins, hlosses⟩ := Backtest.exists_active factor panel config
  have hportfolio := Portfolio.isFinite_stats_iff active (by omega)
    (Backtest.run factor panel config).equity (Backtest.run factor panel config).drawdown
    config.annualization
  rw [← hstats, hwins, hlosses] at hportfolio
  have hturnover : isFinite (Ic.turnover (Backtest.run factor panel config).inTop) = true :=
    Ic.isFinite_turnover (by rw [(Backtest.inStep_run factor panel config).inTop]; omega)
  have hscore := Score.isFinite_composite_iff (measures (run factor panel config settings).metrics)
    (ScorePolicy.weighted_of_validate (Settings.validate_of_ofConfig hsettings))
  have hspread : isFinite (Backtest.run factor panel config).spread = true := by
    simp only [Backtest.run]
    split
    · exact Double.isFinite_orZero _
    · rfl
  -- part by part, what does not depend on anything drops out
  rw [numbers_run]
  simp only [List.forall_mem_cons, List.forall_mem_append, hspread, hic, hportfolio, hturnover,
    Double.isFinite_orZero, hscore, true_and]
  constructor
  · rintro ⟨hp, ⟨hw, hl⟩, hs, -⟩
    exact ⟨hw, hl, hp, hs⟩
  · rintro ⟨hw, hl, hp, hs⟩
    exact ⟨hp, ⟨hw, hl⟩, hs, List.forall_mem_nil _⟩

variable (settings) in
/-- The figures of the layers are finite in any case. -/
theorem isFinite_layerData (hsize : panel.size < 2 ^ 64) :
    ∀ l ∈ (run factor panel config settings).layerData, ∀ v ∈ l.numbers, isFinite v = true := by
  have hlayerData : (run factor panel config settings).layerData =
      (Backtest.run factor panel config).layers := by
    simp only [run]
  have hlength := Backtest.length_observations_le factor panel config
  intro l hl
  rw [hlayerData, Backtest.layers_run] at hl
  obtain ⟨layer, -, rfl⟩ := List.mem_map.mp hl
  exact Layers.isFinite_summary (Nat.lt_of_le_of_lt hlength hsize) _ _

variable (settings) in
/-- So are the monthly ICs. -/
theorem isFinite_csIcData :
    ∀ p ∈ (run factor panel config settings).csIcData, isFinite p.ic = true := by
  intro p hp
  simp only [run, months] at hp
  obtain ⟨m, hm, rfl⟩ := List.mem_map.mp hp
  exact Ic.isFinite_of_mem_monthly hm

/-- **When the results are numbers.** On a panel of no more bars than a machine word counts, all
figures, layers and monthly ICs of an analysis are finite if the computations of `InRange` are, and
then they are read back from their stored form. If one of these computations fails, the result that
is stored is not read at all.

Most figures are replaced by 0 where they are not finite, and the conditions are about the few that
are reported as they are. What is not finite is stored as `null`, and no number is read from that.
-/
theorem run_finite_iff (hsettings : Settings.ofConfig c = .ok settings)
    (hsize : panel.size < 2 ^ 64) :
    ((∀ v ∈ (run factor panel config settings).numbers, isFinite v = true) ↔
      InRange settings (Backtest.run factor panel config)
        (run factor panel config settings).metrics) ∧
    (∀ l ∈ (run factor panel config settings).layerData, LayerSummary.ofJson? l.toJson = some l) ∧
    (∀ p ∈ (run factor panel config settings).csIcData, PeriodIc.ofJson? p.toJson = some p) ∧
    (InRange settings (Backtest.run factor panel config)
        (run factor panel config settings).metrics →
      Metrics.ofJson? (run factor panel config settings).metrics.toJson =
        some (run factor panel config settings).metrics) ∧
    (¬ InRange settings (Backtest.run factor panel config)
        (run factor panel config settings).metrics →
      BacktestResult.ofJson? (run factor panel config settings).toJson = none) := by
  have hmetrics := isFinite_metrics_iff factor panel config hsettings hsize
  have hlayers := isFinite_layerData factor panel config settings hsize
  have hmonths := isFinite_csIcData factor panel config settings
  -- from here on nothing depends on how the result was computed
  generalize run factor panel config settings = result at *
  have hnumbers : (∀ v ∈ result.numbers, isFinite v = true) ↔
      InRange settings (Backtest.run factor panel config) result.metrics := by
    rw [← hmetrics]
    constructor
    · intro h v hv
      exact h v (List.mem_append_left _ (List.mem_append_left _ hv))
    · intro h v hv
      rcases List.mem_append.mp hv with hv | hv
      · rcases List.mem_append.mp hv with hv | hv
        · exact h v hv
        · obtain ⟨l, hl, hv⟩ := List.mem_flatMap.mp hv
          exact hlayers l hl v hv
      · obtain ⟨p, hp, rfl⟩ := List.mem_map.mp hv
        exact hmonths p hp
  refine ⟨hnumbers, ?_, ?_, ?_, ?_⟩
  · intro l hl
    exact LayerSummary.ofJson?_toJson (hlayers l hl)
  · intro p hp
    exact PeriodIc.ofJson?_toJson (hmonths p hp)
  · intro h
    exact Metrics.ofJson?_toJson (hmetrics.mpr h)
  · intro h
    cases hread : BacktestResult.ofJson? result.toJson with
    | none => rfl
    | some read => exact absurd (hnumbers.mp (BacktestResult.isFinite_of_ofJson? hread)) h

end Run

/-- A day on which the price does not move. -/
def calmDay (n : ℕ) (h : 1 ≤ n ∧ n ≤ 31) (close : Float) : Bar Float :=
  ⟨.midnight ⟨2023, 3, n, by decide, by decide, h⟩, close, close, close, close, 1⟩

/-- Eight such days. On the last two the price is more than `10 ^ 300` times as high. -/
def surge : Panel Float where
  symbol := "TEST"
  interval := .daily
  bars := [calmDay 1 (by decide) 1e-300, calmDay 2 (by decide) 1e-300, calmDay 3 (by decide) 1e-300,
    calmDay 4 (by decide) 1e-300, calmDay 5 (by decide) 1e-300, calmDay 6 (by decide) 1e-300,
    calmDay 7 (by decide) 1e8, calmDay 8 (by decide) 1e8]
  increasing := @increasing_of_disorder?_eq_none _ _ 0 (by decide)

/-- A factor that grows from day to day. -/
def rising : FactorSeries Float := .ofValues [1, 2, 3, 4, 5, 6, 7, 8]

/-- Returns over two days in three layers. -/
def overTwoDays : BacktestConfig Float := ⟨2, 3, 252, by decide, by decide⟩

/-- The factor is in its top layer on the last two of the days with a return. -/
theorem observe_surge : Backtest.observe rising surge overTwoDays =
    [⟨0, 1, 0, 0⟩, ⟨1, 2, 0, 0⟩, ⟨2, 3, 0, 1⟩, ⟨3, 4, 0, 1⟩, ⟨4, 5, 1e308, 2⟩,
      ⟨5, 6, 1e308, 2⟩] := by
  have hpoints : Backtest.points rising surge overTwoDays =
      [(0, 1, 0), (1, 2, 0), (2, 3, 0), (3, 4, 0), (4, 5, 1e308), (5, 6, 1e308)] := by
    decide +kernel
  -- the values ascend already, so sorting is not computed
  have horder : Layers.order [1, 2, 3, 4, 5, (6 : Float)] = [0, 1, 2, 3, 4, 5] := by
    rw [Layers.order, List.mergeSort_of_pairwise (by decide +kernel)]
    rfl
  have hassign : Layers.assign [1, 2, 3, 4, 5, (6 : Float)] 3 = [0, 0, 1, 1, 2, 2] := by
    simp only [Layers.assign]
    rw [horder, List.mergeSort_of_pairwise (by decide +kernel)]
    rfl
  have hquantiles : overTwoDays.quantiles = 3 := rfl
  rw [Backtest.observe_eq_zipWith, hpoints, hquantiles]
  simp only [List.map_cons, List.map_nil]
  rw [hassign]
  rfl

/-- Together these two days win more than the greatest double. -/
theorem run_finite_iff_surge :
    Settings.ofConfig Config.empty = .ok Settings.standard ∧ surge.size < 2 ^ 64 ∧
      ¬ (∀ v ∈ (run rising surge overTwoDays Settings.standard).numbers, isFinite v = true) ∧
      BacktestResult.ofJson? (run rising surge overTwoDays Settings.standard).toJson = none := by
  have hsettings : Settings.ofConfig Config.empty = .ok Settings.standard := rfl
  have hsize : surge.size < 2 ^ 64 := by decide
  have hlegs : Backtest.legs? (Backtest.observe rising surge overTwoDays) = some (0, 2) := by
    rw [observe_surge]
    rfl
  -- the two returns of the top layer are `1e308` each, and their sum overflows
  have hwins : isFinite (sum (Portfolio.wins
      (Backtest.run rising surge overTwoDays).longShort)) = false := by
    rw [Backtest.longShort_run hlegs, observe_surge]
    decide +kernel
  have hover : ¬ InRange Settings.standard (Backtest.run rising surge overTwoDays)
      (run rising surge overTwoDays Settings.standard).metrics := by
    intro h
    have hfinite := h.wins
    rw [hwins] at hfinite
    cases hfinite
  obtain ⟨hnumbers, -, -, -, hread⟩ := run_finite_iff rising surge overTwoDays hsettings hsize
  exact ⟨hsettings, hsize, fun h => hover (hnumbers.mp h), hread hover⟩

end Analysis

end FactorStudy
