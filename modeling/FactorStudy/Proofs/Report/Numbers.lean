import FactorStudy.Report.Json
import FactorStudy.Proofs.Double.Undefined

/-!
# The numbers of a stored result

JSON has no way to write a number that is not finite, so such a number is stored as `null`. A field
that has to be a number cannot be read from `null`. So a result whose numbers are all finite is read
back as it was, and one with a number that is not finite is not read at all.
-/

namespace FactorStudy

open Number

namespace Json

theorem ofDouble_of_isFinite {x : Float} (h : isFinite x = true) : ofDouble x = double x := if_pos h

/-- A stored number is read back if it is finite. -/
theorem asDouble?_ofDouble (x : Float) : asDouble? (ofDouble x) = finite? x := by
  cases h : isFinite x with
  | true =>
    rw [ofDouble_of_isFinite h, finite?, if_pos h]
    rfl
  | false =>
    have hnot : ¬ isFinite x = true := by rw [h]; exact Bool.false_ne_true
    rw [finite?, if_neg hnot, ofDouble]
    exact congrArg asDouble? (if_neg hnot)

/-- What a field that has to be a number was written from. -/
theorem isFinite_of_field? {ms : List (String × Json)} {name : String} {a x : Float}
    (h : field? ms name asDouble? = some a) (hx : member? ms name = some (ofDouble x)) :
    isFinite x = true := by
  rw [field?, hx, Option.bind_some, asDouble?_ofDouble] at h
  obtain ⟨rfl, hfinite⟩ := Double.finite?_eq_some_iff.mp h
  exact hfinite

end Json

open Json

/-! ## The numbers of each part -/

/-- The numbers of the figures, with the names of their fields. -/
def Metrics.named (m : Metrics) : List (String × Float) :=
  [("ic_mean", m.icMean), ("ic_std", m.icStd), ("ic_ir", m.icIr), ("t_stat", m.tStat),
    ("p_value", m.pValue), ("ic_positive_pct", m.icPositivePct), ("sharpe", m.sharpe),
    ("sortino", m.sortino), ("calmar", m.calmar), ("win_rate", m.winRate),
    ("profit_factor", m.profitFactor), ("avg_win", m.avgWin), ("avg_loss", m.avgLoss),
    ("max_drawdown", m.maxDrawdown), ("total_return", m.totalReturn),
    ("annualized_return", m.annualizedReturn), ("annualized_vol", m.annualizedVol),
    ("turnover", m.turnover), ("factor_autocorr", m.factorAutocorr), ("score", m.score)]

/-- All numbers of the figures. -/
def Metrics.numbers (m : Metrics) : List Float :=
  m.quantileAnalysis.spread :: m.named.map (·.2)

def LayerSummary.numbers (l : LayerSummary Float) : List Float :=
  [l.meanReturn, l.totalReturn, l.sharpe, l.winRate]

/-- All numbers of a result that may not be missing. -/
def BacktestResult.numbers (r : BacktestResult) : List Float :=
  r.metrics.numbers ++ r.layerData.flatMap (·.numbers) ++ r.csIcData.map (·.ic)

/-! ## Reading back -/

theorem QuantileAnalysis.isFinite_of_ofJson? {q q' : QuantileAnalysis}
    (h : ofJson? q.toJson = some q') : isFinite q.spread = true := by
  unfold ofJson? at h
  obtain ⟨ms, hms, h⟩ := Option.bind_eq_some_iff.mp h
  obtain ⟨_, -, h⟩ := Option.bind_eq_some_iff.mp h
  obtain ⟨_, hspread, -⟩ := Option.bind_eq_some_iff.mp h
  cases hms
  exact isFinite_of_field? hspread rfl

/-- The fields that are read. -/
theorem Metrics.exists_field_of_ofJson? {j : Json} {m : Metrics} (h : ofJson? j = some m) :
    ∃ ms, fields? fieldNames j = some ms ∧
      (∀ p ∈ m.named, ∃ a, field? ms p.1 asDouble? = some a) ∧
      ∃ q, field? ms "quantile_analysis" QuantileAnalysis.ofJson? = some q := by
  unfold ofJson? at h
  obtain ⟨ms, hms, h⟩ := Option.bind_eq_some_iff.mp h
  -- one field after the other
  iterate 28 obtain ⟨_, _, h⟩ := Option.bind_eq_some_iff.mp h
  refine ⟨ms, hms, ?_, _, ‹_›⟩
  simp only [named, List.forall_mem_cons]
  and_intros
  all_goals first | exact ⟨_, ‹_›⟩ | exact List.forall_mem_nil _

/-- Each number stands in the field of its name. -/
theorem Metrics.member?_toJson (m : Metrics) :
    ∃ ms, fields? fieldNames m.toJson = some ms ∧
      (∀ p ∈ m.named, member? ms p.1 = some (ofDouble p.2)) ∧
      member? ms "quantile_analysis" = some m.quantileAnalysis.toJson := by
  refine ⟨_, rfl, ?_, rfl⟩
  simp only [named, List.forall_mem_cons]
  and_intros
  all_goals first | rfl | exact List.forall_mem_nil _

theorem Metrics.isFinite_of_ofJson? {m m' : Metrics} (h : ofJson? m.toJson = some m') :
    ∀ v ∈ m.numbers, isFinite v = true := by
  obtain ⟨ms, hms, hread, q, hq⟩ := exists_field_of_ofJson? h
  obtain ⟨ms', hms', hmember, hquantile⟩ := member?_toJson m
  obtain rfl := Option.some.inj (hms.symm.trans hms')
  have hnames : m.named.map Prod.fst = m'.named.map Prod.fst := rfl
  intro v hv
  rcases List.mem_cons.mp hv with rfl | hv
  · rw [field?, hquantile, Option.bind_some] at hq
    exact QuantileAnalysis.isFinite_of_ofJson? hq
  · obtain ⟨p, hp, rfl⟩ := List.mem_map.mp hv
    have hname : p.1 ∈ m'.named.map Prod.fst := hnames ▸ List.mem_map_of_mem hp
    obtain ⟨p', hp', hname⟩ := List.mem_map.mp hname
    obtain ⟨a, ha⟩ := hread p' hp'
    rw [hname] at ha
    exact isFinite_of_field? ha (hmember p hp)

theorem Metrics.ofJson?_toJson {m : Metrics} (h : ∀ v ∈ m.numbers, isFinite v = true) :
    ofJson? m.toJson = some m := by
  simp only [numbers, named, List.map_cons, List.forall_mem_cons] at h
  simp only [toJson, QuantileAnalysis.toJson, ofDouble_of_isFinite, h]
  rfl

theorem LayerSummary.ofJson?_toJson {l : LayerSummary Float}
    (h : ∀ v ∈ l.numbers, isFinite v = true) : ofJson? l.toJson = some l := by
  simp only [numbers, List.forall_mem_cons] at h
  simp only [toJson, ofDouble_of_isFinite, h]
  rfl

theorem LayerSummary.isFinite_of_ofJson? {l l' : LayerSummary Float}
    (h : ofJson? l.toJson = some l') : ∀ v ∈ l.numbers, isFinite v = true := by
  unfold ofJson? at h
  obtain ⟨ms, hms, h⟩ := Option.bind_eq_some_iff.mp h
  obtain ⟨_, -, h⟩ := Option.bind_eq_some_iff.mp h
  obtain ⟨_, hmean, h⟩ := Option.bind_eq_some_iff.mp h
  obtain ⟨_, htotal, h⟩ := Option.bind_eq_some_iff.mp h
  obtain ⟨_, hsharpe, h⟩ := Option.bind_eq_some_iff.mp h
  obtain ⟨_, hwinRate, h⟩ := Option.bind_eq_some_iff.mp h
  cases hms
  simp only [numbers, List.forall_mem_cons]
  exact ⟨isFinite_of_field? hmean rfl, isFinite_of_field? htotal rfl,
    isFinite_of_field? hsharpe rfl, isFinite_of_field? hwinRate rfl, List.forall_mem_nil _⟩

theorem PeriodIc.ofJson?_toJson {p : PeriodIc} (h : isFinite p.ic = true) :
    ofJson? p.toJson = some p := by
  rw [toJson, ofDouble_of_isFinite h]
  rfl

theorem PeriodIc.isFinite_of_ofJson? {p p' : PeriodIc} (h : ofJson? p.toJson = some p') :
    isFinite p.ic = true := by
  unfold ofJson? at h
  obtain ⟨ms, hms, h⟩ := Option.bind_eq_some_iff.mp h
  obtain ⟨_, -, h⟩ := Option.bind_eq_some_iff.mp h
  obtain ⟨_, hic, -⟩ := Option.bind_eq_some_iff.mp h
  cases hms
  exact isFinite_of_field? hic rfl

/-- A stored list is read item by item. -/
theorem Json.exists_of_asList? {α β : Type} {write : α → Json} {read : Json → Option β}
    {items : List α} {bs : List β} (h : asList? read (array (items.map write)) = some bs) :
    ∀ a ∈ items, ∃ b, read (write a) = some b := by
  have hread : (items.map write).mapM read = some bs := h
  clear h
  induction items generalizing bs with
  | nil => exact List.forall_mem_nil _
  | cons a items ih =>
    rw [List.map_cons, List.mapM_cons] at hread
    obtain ⟨b, hb, hread⟩ := Option.bind_eq_some_iff.mp hread
    obtain ⟨bs, hbs, -⟩ := Option.bind_eq_some_iff.mp hread
    exact List.forall_mem_cons.mpr ⟨⟨b, hb⟩, ih hbs⟩

/-- Only a result whose numbers are all finite is read at all. -/
theorem BacktestResult.isFinite_of_ofJson? {r r' : BacktestResult}
    (h : ofJson? r.toJson = some r') : ∀ v ∈ r.numbers, isFinite v = true := by
  unfold ofJson? at h
  obtain ⟨ms, hms, h⟩ := Option.bind_eq_some_iff.mp h
  obtain ⟨_, hmetrics, h⟩ := Option.bind_eq_some_iff.mp h
  obtain ⟨_, -, h⟩ := Option.bind_eq_some_iff.mp h
  obtain ⟨_, -, h⟩ := Option.bind_eq_some_iff.mp h
  obtain ⟨_, hperiods, h⟩ := Option.bind_eq_some_iff.mp h
  obtain ⟨_, hlayers, -⟩ := Option.bind_eq_some_iff.mp h
  cases hms
  intro v hv
  simp only [numbers, List.mem_append, List.mem_flatMap, List.mem_map] at hv
  rcases hv with (hv | ⟨l, hl, hv⟩) | ⟨p, hp, rfl⟩
  · exact Metrics.isFinite_of_ofJson? hmetrics v hv
  · obtain ⟨l', hl'⟩ := Json.exists_of_asList? hlayers l hl
    exact LayerSummary.isFinite_of_ofJson? hl' v hv
  · obtain ⟨p', hp'⟩ := Json.exists_of_asList? hperiods p hp
    exact PeriodIc.isFinite_of_ofJson? hp'

end FactorStudy
