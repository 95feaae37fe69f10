import FactorStudy.Proofs.Study.Requests
import FactorStudy.Proofs.Backtest.Observations
import FactorStudy.Stats.StudentT
import FactorStudy.Study.Memory

/-!
# The parts of a combination

A combination tells how well each of its factors does on its own. That figure is computed without a
backtest, from the aligned factor and forward returns, and is the one that a request for the factor
alone reports.
-/

namespace FactorStudy

/-- The observations of a backtest hold the points at which the IC of a factor is taken. -/
theorem Analysis.factorIc_eq [TDistribution] (factor : FactorSeries Float) (panel : Panel Float)
    (config : BacktestConfig Float) (settings : Settings) :
    factorIc factor panel config.periods settings.icWindow =
      (run factor panel config settings).metrics.icMean := by
  have hpoints : Backtest.aligned factor.values
      (Returns.forward (panel.column .close) config.periods) =
      (Backtest.run factor panel config).observations.map
        fun o => (o.index, o.factor, o.forward) :=
    (Backtest.map_observe factor panel config).symm
  unfold factorIc
  rw [hpoints]
  simp only [List.map_map]
  rfl

namespace Study

section Attribution

variable {σ : Type} {source : Source (StateM σ)} {settings : Settings} {scope : Scope} {s : σ}
  [TDistribution]

/-- What a request for one factor reports. -/
theorem fst_evaluate {text : String} {e : Expr} {config : BacktestConfig Float}
    {panel : Panel Float} {factor : FactorSeries Float} (he : Expr.check text = .ok e)
    (hconfig : configOf settings scope = .ok config)
    (hpanel : (source scope.query s).1 = .ok panel)
    (hfactor : factorOn settings panel e = .ok factor) :
    (evaluate source settings text scope s).1 = .ok (Analysis.run factor panel config settings) := by
  have hchecked : checkSingle settings text scope = .ok (e, config) := by
    unfold checkSingle
    rw [he, hconfig]
    rfl
  rw [evaluate, fst_fetching, hchecked, hpanel]
  show (factorOn settings panel e).bind _ = _
  rw [hfactor]
  rfl

/-- A combination that succeeds has the expressions of its factors, a configuration, a panel and
the factors' series on it. -/
theorem exists_of_fst_combine {factors : List WeightedFactor} {result : CombinationResult}
    (h : (combine source settings factors scope s).1 = .ok result) :
    ∃ es config panel series,
      List.Forall₂ (fun f e => Expr.check f.expression = .ok e) factors es ∧
      configOf settings scope = .ok config ∧ (source scope.query s).1 = .ok panel ∧
      List.Forall₂ (fun e factor => factorOn settings panel e = .ok factor) es series ∧
      result.factorDetails = series.zipWith (fun factor f => ⟨f.expression, f.weight,
        Analysis.factorIc factor panel config.periods settings.icWindow⟩) factors := by
  rw [combine, fst_fetching] at h
  obtain ⟨⟨es, config⟩, hchecked, h⟩ := exists_of_bind_eq_ok h
  obtain ⟨panel, hpanel, h⟩ := exists_of_bind_eq_ok h
  obtain ⟨series, hseries, h⟩ := exists_of_bind_eq_ok h
  obtain ⟨hes, hconfig⟩ := forall₂_of_checkCombination hchecked
  rw [← Except.ok.inj h]
  exact ⟨es, config, panel, series, hes, hconfig, hpanel, forall₂_of_mapM_eq_ok hseries, rfl⟩

/-- **Attribution.** Each factor of a combination has an entry, in order, and its figure is the one
that a request for the factor alone finds, whenever it is made, from a source that always answers a
query alike. -/
theorem combine_details_eq_alone (steady : ∀ q s t, (source q s).1 = (source q t).1)
    {factors : List WeightedFactor} {result : CombinationResult}
    (h : (combine source settings factors scope s).1 = .ok result) :
    List.Forall₂ (fun f d => d.expression = f.expression ∧ d.weight = f.weight ∧
      ∀ t, ∃ alone, (evaluate source settings f.expression scope t).1 = .ok alone ∧
        d.ic = alone.metrics.icMean) factors result.factorDetails := by
  obtain ⟨es, config, panel, series, hes, hconfig, hpanel, hseries, hdetails⟩ :=
    exists_of_fst_combine h
  rw [hdetails]
  clear h hdetails
  -- factors, expressions and series stand side by side, so the entries are taken one by one
  induction hes generalizing series with
  | nil =>
    cases hseries
    exact .nil
  | @cons f e factors es he hes ih =>
    cases hseries with
    | @cons _ factor _ series hfactor hseries =>
      refine .cons ⟨rfl, rfl, fun t => ?_⟩ (ih series hseries)
      have hpanel : (source scope.query t).1 = .ok panel := (steady _ t s).trans hpanel
      exact ⟨_, fst_evaluate he hconfig hpanel hfactor, Analysis.factorIc_eq factor panel config
        settings⟩

end Attribution

/-- A source that holds three days of prices. -/
def threeDays : Source (StateM Unit) := fun q => pure (q.answer [Expr.threeDays])

/-- The price, less half of the volume. -/
def priceLessVolume : List WeightedFactor := [⟨"close", 1⟩, ⟨"(-volume)", -0.5⟩]

def nextDay : Scope := ⟨⟨"TEST", .daily, none, none⟩, 1, 3⟩

theorem combine_details_eq_alone_threeDays :
    (∀ q s t, (threeDays q s).1 = (threeDays q t).1) ∧
      ∃ result, (combine threeDays .standard priceLessVolume nextDay ()).1 = .ok result ∧
        List.Forall₂ (fun f d => d.expression = f.expression ∧ d.weight = f.weight ∧
          ∀ t, ∃ alone, (evaluate threeDays .standard f.expression nextDay t).1 = .ok alone ∧
            d.ic = alone.metrics.icMean) priceLessVolume result.factorDetails := by
  have hsteady : ∀ q s t, (threeDays q s).1 = (threeDays q t).1 := fun _ _ _ => rfl
  have hclose : Expr.check "close" = .ok (.column .close) :=
    Expr.check_render (e := .column .close) rfl rfl (by decide) rfl
  have hvolume : Expr.check "(-volume)" = .ok (.neg (.column .volume)) :=
    Expr.check_render (e := .neg (.column .volume)) rfl rfl (by decide) rfl
  have hone : (1 : Float).isFinite = true := by decide +kernel
  have hhalf : (-0.5 : Float).isFinite = true := by decide +kernel
  -- the checks pass, the panel is there, so the request succeeds
  have hchecked : checkCombination .standard priceLessVolume nextDay =
      .ok ([.column .close, .neg (.column .volume)], ⟨1, 3,
        Settings.standard.annualization .daily, by decide, by decide⟩) := by
    unfold checkCombination
    simp only [priceLessVolume, List.mapM_cons, hclose, hvolume, WeightedFactor.checkAll,
      List.find?_cons, hone, hhalf]
    rfl
  obtain ⟨panel, hpanel⟩ : ∃ panel, (threeDays nextDay.query ()).1 = .ok panel := ⟨_, rfl⟩
  have hsucceeds : ∃ result,
      (combine threeDays .standard priceLessVolume nextDay ()).1 = .ok result := by
    rw [combine, fst_fetching, hchecked, hpanel]
    exact ⟨_, rfl⟩
  obtain ⟨result, hresult⟩ := hsucceeds
  exact ⟨hsteady, result, hresult, combine_details_eq_alone hsteady hresult⟩

end Study

end FactorStudy
