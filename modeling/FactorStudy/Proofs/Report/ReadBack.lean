import FactorStudy.Proofs.Json.Layout
import FactorStudy.Proofs.Report.Numbers
import FactorStudy.Proofs.Time.ReportText

/-!
# Reports are read back

A report whose numbers are finite and whose counts fit 64 bits is read back from its JSON text as it
was, in either layout (`Report.read_layouts`). Two results differ in their JSON by one member only,
the factor details, and that member decides which kind of result is read: a combination always has
it, with an empty list when there are no details, and a single result never does.
-/

namespace FactorStudy

open Number

namespace Json

/-! ## Numbers, options and lists -/

theorem exact_ofDouble (x : Float) : Exact (ofDouble x) := by
  by_cases h : x.isFinite = true
  · rw [ofDouble, if_pos h]
    exact .double h
  · rw [ofDouble, if_neg h]
    exact .null

theorem exact_ofCount {n : ℕ} (h : n < 2 ^ 64) : Exact (ofCount n) := by
  refine .integer ?_
  have hhigh : (n : ℤ) < (Nat.pow 2 64 : ℕ) := by exact_mod_cast h
  have hlow : -((Nat.pow 2 63 : ℕ) : ℤ) ≤ (n : ℤ) := by omega
  rw [isSmall, decide_eq_true hlow, decide_eq_true hhigh]
  rfl

theorem exact_ofOption {α : Type} {f : α → Json} (h : ∀ a, Exact (f a)) (o : Option α) :
    Exact (ofOption f o) := by
  cases o with
  | none => exact .null
  | some a => exact h a

theorem exact_map {α : Type} {f : α → Json} {items : List α} (h : ∀ a ∈ items, Exact (f a)) :
    Exact (array (items.map f)) :=
  .array (List.forall_mem_map.mpr h)

/-- What can be written is in the range of doubles. -/
theorem Exact.inRange {j : Json} (h : Exact j) : j.inRange = true := by
  induction h with
  | null => rfl
  | bool b => rfl
  | integer hn => rfl
  | double hx => exact hx
  | string s => rfl
  | @array items _ ih =>
    rw [Json.inRange]
    -- along the items; each is in range by the induction on the value
    clear * - ih
    induction items with
    | nil => rfl
    | cons j items hitems =>
      obtain ⟨hj, hrest⟩ := List.forall_mem_cons.mp ih
      rw [inRangeItems, hj, hitems hrest]
      rfl
  | @object members _ ih =>
    rw [Json.inRange]
    clear * - ih
    induction members with
    | nil => rfl
    | cons m members hmembers =>
      obtain ⟨hm, hrest⟩ := List.forall_mem_cons.mp ih
      rw [inRangeMembers, hm, hmembers hrest]
      rfl

@[simp] theorem depth_ofDouble (x : Float) : (ofDouble x).depth = 0 := by
  unfold ofDouble
  split <;> rfl

@[simp] theorem depth_ofOption_ofDouble (o : Option Float) : (ofOption ofDouble o).depth = 0 := by
  cases o with
  | none => rfl
  | some x => exact depth_ofDouble x

theorem depth_map_le {α : Type} {f : α → Json} {n : ℕ} (h : ∀ a, (f a).depth ≤ n)
    (items : List α) : (array (items.map f)).depth ≤ n + 1 := by
  rw [depth]
  refine Nat.succ_le_succ ?_
  induction items with
  | nil => exact Nat.zero_le n
  | cons a items ih =>
    rw [List.map_cons, depthItems]
    exact Nat.max_le.mpr ⟨h a, ih⟩

/-- A stored list is read back when each of its items is. -/
theorem asList?_map {α : Type} {write : α → Json} {read : Json → Option α} {items : List α}
    (h : ∀ a ∈ items, read (write a) = some a) :
    asList? read (array (items.map write)) = some items := by
  show (items.map write).mapM read = some items
  induction items with
  | nil => rfl
  | cons a items ih =>
    obtain ⟨ha, hrest⟩ := List.forall_mem_cons.mp h
    rw [List.map_cons, List.mapM_cons, ha, ih hrest]
    rfl

/-- A field is read when what stands under its name is. -/
theorem field?_eq_some {α : Type} {ms : List (String × Json)} {name : String} {j : Json} {a : α}
    {read : Json → Option α} (hmember : member? ms name = some j) (hread : read j = some a) :
    field? ms name read = some a := by
  rw [field?, hmember, Option.bind_some, hread]

/-- A number that may be missing is read back, and a missing one stays missing. -/
theorem optionalField?_ofDouble {ms : List (String × Json)} {name : String} {o : Option Float}
    (hmember : member? ms name = some (ofOption ofDouble o))
    (h : ∀ x, o = some x → isFinite x = true) : optionalField? ms name asDouble? = some o := by
  rw [optionalField?, hmember]
  cases o with
  | none => rfl
  | some x =>
    show asOption? asDouble? (ofDouble x) = _
    rw [ofDouble_of_isFinite (h x rfl)]
    rfl

theorem optionalField?_string {ms : List (String × Json)} {name : String} {o : Option String}
    (hmember : member? ms name = some (ofOption string o)) :
    optionalField? ms name asString? = some o := by
  rw [optionalField?, hmember]
  cases o <;> rfl

end Json

open Json

/-! ## The parts of a result -/

/-- The numbers of a row that are not missing. -/
def EquityPoint.numbers (p : EquityPoint) : List Float :=
  [p.equity, p.drawdown, p.rollingIc, p.rollingIcir, p.cumulativeIc].reduceOption

theorem EquityPoint.ofJson?_toJson {p : EquityPoint} (h : ∀ v ∈ p.numbers, isFinite v = true) :
    ofJson? p.toJson = some p := by
  have hfinite : ∀ o ∈ [p.equity, p.drawdown, p.rollingIc, p.rollingIcir, p.cumulativeIc],
      ∀ x, o = some x → isFinite x = true := by
    rintro o ho x rfl
    exact h x (List.reduceOption_mem_iff.mpr ho)
  simp only [List.forall_mem_cons] at hfinite
  obtain ⟨hequity, hdrawdown, hic, hicir, hcumulative, -⟩ := hfinite
  unfold ofJson?
  refine Option.bind_eq_some_iff.mpr ⟨_, rfl, ?_⟩
  refine Option.bind_eq_some_iff.mpr ⟨_, rfl, ?_⟩
  refine Option.bind_eq_some_iff.mpr ⟨_, p.date.readIso?_isoText, ?_⟩
  refine Option.bind_eq_some_iff.mpr ⟨_, optionalField?_ofDouble rfl hequity, ?_⟩
  refine Option.bind_eq_some_iff.mpr ⟨_, optionalField?_ofDouble rfl hdrawdown, ?_⟩
  refine Option.bind_eq_some_iff.mpr ⟨_, optionalField?_ofDouble rfl hic, ?_⟩
  refine Option.bind_eq_some_iff.mpr ⟨_, optionalField?_ofDouble rfl hicir, ?_⟩
  exact Option.bind_eq_some_iff.mpr ⟨_, optionalField?_ofDouble rfl hcumulative, rfl⟩

theorem IcBin.ofJson?_toJson (b : IcBin) : ofJson? b.toJson = some b := rfl

def FactorDetail.numbers (d : FactorDetail) : List Float := [d.weight, d.ic]

theorem FactorDetail.ofJson?_toJson {d : FactorDetail} (h : ∀ v ∈ d.numbers, isFinite v = true) :
    ofJson? d.toJson = some d := by
  simp only [numbers, List.forall_mem_cons] at h
  rw [toJson, ofDouble_of_isFinite h.1, ofDouble_of_isFinite h.2.1]
  rfl

/-! ## Results -/

/-- All numbers of a result, those that may be missing included. -/
def BacktestResult.allNumbers (r : BacktestResult) : List Float :=
  r.numbers ++ r.equityCurve.flatMap (·.numbers)

/-- The members of a result are read whatever else stands behind them. -/
theorem BacktestResult.ofJson?_members {r : BacktestResult}
    (h : ∀ v ∈ r.allNumbers, isFinite v = true) {others : List (String × Json)}
    (hothers : others = [] ∨ ∃ j, others = [("factor_details", j)]) :
    ofJson? (object (r.members ++ others)) = some r := by
  simp only [allNumbers, numbers, List.forall_mem_append, List.forall_mem_flatMap,
    List.forall_mem_map] at h
  obtain ⟨⟨⟨hmetrics, hlayers⟩, hmonths⟩, hcurve⟩ := h
  unfold ofJson?
  -- names are looked up from the front, so what stands behind the members is not seen
  rcases hothers with rfl | ⟨j, rfl⟩
  all_goals
    have hpoints := asList?_map fun p hp => EquityPoint.ofJson?_toJson (hcurve p hp)
    have hbins := asList?_map fun b (_ : b ∈ r.icHistogram) => b.ofJson?_toJson
    have hics := asList?_map fun p hp => PeriodIc.ofJson?_toJson (hmonths p hp)
    have hsummaries := asList?_map fun l hl => LayerSummary.ofJson?_toJson (hlayers l hl)
    refine Option.bind_eq_some_iff.mpr ⟨_, rfl, ?_⟩
    refine Option.bind_eq_some_iff.mpr
      ⟨_, field?_eq_some rfl (Metrics.ofJson?_toJson hmetrics), ?_⟩
    refine Option.bind_eq_some_iff.mpr ⟨_, field?_eq_some rfl hpoints, ?_⟩
    refine Option.bind_eq_some_iff.mpr ⟨_, field?_eq_some rfl hbins, ?_⟩
    refine Option.bind_eq_some_iff.mpr ⟨_, field?_eq_some rfl hics, ?_⟩
    exact Option.bind_eq_some_iff.mpr ⟨_, field?_eq_some rfl hsummaries, rfl⟩

/-- All counts of a result. -/
def BacktestResult.counts (r : BacktestResult) : List ℕ :=
  [r.metrics.numTrades, r.metrics.numObservations, r.metrics.periods, r.metrics.nQuantiles] ++
    r.icHistogram.map (·.count) ++ r.layerData.flatMap fun l => [l.layer, l.count]

theorem Metrics.exact_toJson {m : Metrics}
    (h : ∀ n ∈ [m.numTrades, m.numObservations, m.periods, m.nQuantiles], n < 2 ^ 64) :
    Exact m.toJson := by
  simp only [List.forall_mem_cons] at h
  obtain ⟨htrades, hobservations, hperiods, hquantiles, -⟩ := h
  have hchecks : Exact m.validityChecks.toJson :=
    .object (by simp only [List.forall_mem_cons]; exact
      ⟨.bool _, .bool _, .bool _, .bool _, .bool _, List.forall_mem_nil _⟩)
  have hanalysis : Exact m.quantileAnalysis.toJson :=
    .object (by simp only [List.forall_mem_cons]; exact
      ⟨.bool _, exact_ofDouble _, List.forall_mem_nil _⟩)
  refine .object ?_
  simp only [List.forall_mem_cons, exact_ofDouble, exact_ofCount htrades,
    exact_ofCount hobservations, exact_ofCount hperiods, exact_ofCount hquantiles, hchecks,
    hanalysis, Exact.bool, Exact.string, true_and]
  exact List.forall_mem_nil _

theorem EquityPoint.exact_toJson (p : EquityPoint) : Exact p.toJson := by
  refine .object ?_
  simp only [List.forall_mem_cons, exact_ofOption exact_ofDouble, Exact.string, true_and]
  exact List.forall_mem_nil _

theorem IcBin.exact_toJson {b : IcBin} (h : b.count < 2 ^ 64) : Exact b.toJson := by
  refine .object ?_
  simp only [List.forall_mem_cons, exact_ofCount h, Exact.string, true_and]
  exact List.forall_mem_nil _

theorem PeriodIc.exact_toJson (p : PeriodIc) : Exact p.toJson := by
  refine .object ?_
  simp only [List.forall_mem_cons, exact_ofDouble, Exact.string, true_and]
  exact List.forall_mem_nil _

theorem LayerSummary.exact_toJson {l : LayerSummary Float}
    (h : ∀ n ∈ [l.layer, l.count], n < 2 ^ 64) : Exact l.toJson := by
  simp only [List.forall_mem_cons] at h
  refine .object ?_
  simp only [List.forall_mem_cons, exact_ofCount h.1, exact_ofCount h.2.1, exact_ofDouble, true_and]
  exact List.forall_mem_nil _

theorem FactorDetail.exact_toJson (d : FactorDetail) : Exact d.toJson := by
  refine .object ?_
  simp only [List.forall_mem_cons, exact_ofDouble, Exact.string, true_and]
  exact List.forall_mem_nil _

theorem BacktestResult.exact_members {r : BacktestResult} (h : ∀ n ∈ r.counts, n < 2 ^ 64) :
    ∀ m ∈ r.members, Exact m.2 := by
  simp only [counts, List.forall_mem_append, List.forall_mem_map, List.forall_mem_flatMap] at h
  obtain ⟨⟨hmetrics, hbins⟩, hlayers⟩ := h
  simp only [members, List.forall_mem_cons]
  exact ⟨Metrics.exact_toJson hmetrics, exact_map fun p _ => p.exact_toJson,
    exact_map fun b hb => IcBin.exact_toJson (hbins b hb), exact_map fun p _ => p.exact_toJson,
    exact_map fun l hl => LayerSummary.exact_toJson (hlayers l hl), List.forall_mem_nil _⟩

/-! ### Nesting -/

theorem Metrics.depth_toJson (m : Metrics) : m.toJson.depth = 2 := by
  simp [toJson, ValidityChecks.toJson, QuantileAnalysis.toJson, ofCount, depth, depthMembers]

theorem EquityPoint.depth_toJson (p : EquityPoint) : p.toJson.depth = 1 := by
  simp [toJson, depth, depthMembers]

theorem IcBin.depth_toJson (b : IcBin) : b.toJson.depth = 1 := rfl

theorem PeriodIc.depth_toJson (p : PeriodIc) : p.toJson.depth = 1 := by
  simp [toJson, depth, depthMembers]

theorem LayerSummary.depth_toJson (l : LayerSummary Float) : l.toJson.depth = 1 := by
  simp [toJson, ofCount, depth, depthMembers]

theorem FactorDetail.depth_toJson (d : FactorDetail) : d.toJson.depth = 1 := by
  simp [toJson, depth, depthMembers]

theorem depth_object_le {members : List (String × Json)} {n : ℕ}
    (h : ∀ m ∈ members, m.2.depth ≤ n) : (object members).depth ≤ n + 1 := by
  rw [depth]
  refine Nat.succ_le_succ ?_
  induction members with
  | nil => exact Nat.zero_le n
  | cons m members ih =>
    obtain ⟨hm, hrest⟩ := List.forall_mem_cons.mp h
    rw [depthMembers]
    exact Nat.max_le.mpr ⟨hm, ih hrest⟩

theorem BacktestResult.depth_members_le (r : BacktestResult) : ∀ m ∈ r.members, m.2.depth ≤ 2 := by
  simp only [members, List.forall_mem_cons]
  exact ⟨r.metrics.depth_toJson.le, depth_map_le (fun p => p.depth_toJson.le) _,
    depth_map_le (fun b => b.depth_toJson.le) _, depth_map_le (fun p => p.depth_toJson.le) _,
    depth_map_le (fun l => l.depth_toJson.le) _, List.forall_mem_nil _⟩

theorem ReportData.depth_toJson_le (d : ReportData) : d.toJson.depth ≤ 3 := by
  cases d with
  | single r => exact depth_object_le r.depth_members_le
  | combination c =>
    refine depth_object_le ?_
    simp only [List.forall_mem_append, List.forall_mem_singleton]
    exact ⟨c.result.depth_members_le, depth_map_le (fun d => d.depth_toJson.le) _⟩

/-! ## Reports -/

/-- All numbers of a report. -/
def ReportData.numbers : ReportData → List Float
  | single r => r.allNumbers
  | combination c => c.result.allNumbers ++ c.factorDetails.flatMap (·.numbers)

/-- All counts of a report. -/
def ReportData.counts : ReportData → List ℕ
  | single r => r.counts
  | combination c => c.result.counts

/-- The numbers are finite, and the counts fit 64 bits. -/
structure Report.IsStorable (r : Report) : Prop where
  finite : ∀ v ∈ r.data.numbers, isFinite v = true
  fits : ∀ n ∈ r.data.counts, n < 2 ^ 64

theorem ReportData.exact_toJson {d : ReportData} (h : ∀ n ∈ d.counts, n < 2 ^ 64) :
    Exact d.toJson := by
  cases d with
  | single r => exact .object (BacktestResult.exact_members h)
  | combination c =>
    refine .object ?_
    simp only [List.forall_mem_append, List.forall_mem_singleton]
    exact ⟨BacktestResult.exact_members h, exact_map fun d _ => d.exact_toJson⟩

theorem CombinationResult.ofJson?_object (members : List (String × Json)) :
    ofJson? (object members) =
      (fields? ["factor_details"] (object members)).bind fun ms =>
        (BacktestResult.ofJson? (object members)).bind fun result =>
          (field? ms "factor_details" (asList? FactorDetail.ofJson?)).bind fun details =>
            some ⟨result, details⟩ := rfl

/-- A single result has no factor details, so it is not taken for a combination. -/
theorem CombinationResult.ofJson?_single (r : BacktestResult) : ofJson? r.toJson = none := by
  have hfields : fields? ["factor_details"] (object r.members) = some r.members := rfl
  have hfield : field? r.members "factor_details" (asList? FactorDetail.ofJson?) = none := rfl
  rw [BacktestResult.toJson, ofJson?_object, hfields, Option.bind_some, hfield]
  cases BacktestResult.ofJson? (object r.members) <;> rfl

theorem CombinationResult.ofJson?_toJson {c : CombinationResult}
    (hresult : ∀ v ∈ c.result.allNumbers, isFinite v = true)
    (hdetails : ∀ d ∈ c.factorDetails, ∀ v ∈ d.numbers, isFinite v = true) :
    ofJson? c.toJson = some c := by
  rw [toJson, ofJson?_object]
  refine Option.bind_eq_some_iff.mpr ⟨_, rfl, ?_⟩
  refine Option.bind_eq_some_iff.mpr
    ⟨_, BacktestResult.ofJson?_members hresult (Or.inr ⟨_, rfl⟩), ?_⟩
  exact Option.bind_eq_some_iff.mpr
    ⟨_, asList?_map fun d hd => FactorDetail.ofJson?_toJson (hdetails d hd), rfl⟩

/-- Each kind of result is read as what it is. -/
theorem ReportData.ofJson?_toJson {d : ReportData} (hfinite : ∀ v ∈ d.numbers, isFinite v = true)
    (hfits : ∀ n ∈ d.counts, n < 2 ^ 64) : ofJson? d.toJson = some d := by
  have hdepth := d.depth_toJson_le
  have hlimit : d.toJson.depth + 1 < nestingLimit := by
    unfold nestingLimit
    omega
  rw [ofJson?, (exact_toJson hfits).inRange, decide_eq_true hlimit, Bool.and_self, if_pos rfl]
  cases d with
  | single r =>
    have hread := BacktestResult.ofJson?_members hfinite (Or.inl rfl)
    rw [List.append_nil] at hread
    have hjson : (single r).toJson = r.toJson := rfl
    rw [hjson, CombinationResult.ofJson?_single, BacktestResult.toJson, hread]
    rfl
  | combination c =>
    simp only [numbers, List.forall_mem_append, List.forall_mem_flatMap] at hfinite
    have hjson : (combination c).toJson = c.toJson := rfl
    rw [hjson, CombinationResult.ofJson?_toJson hfinite.1 hfinite.2]
    rfl

namespace Report

variable {r : Report}

theorem exact_toJson (h : r.IsStorable) : Exact r.toJson := by
  refine .object ?_
  simp only [List.forall_mem_cons, exact_ofOption Exact.string, ReportData.exact_toJson h.fits,
    Exact.string, true_and]
  exact List.forall_mem_nil _

theorem ofJson?_toJson (h : r.IsStorable) : ofJson? r.toJson = some r := by
  unfold ofJson?
  refine Option.bind_eq_some_iff.mpr ⟨_, rfl, ?_⟩
  refine Option.bind_eq_some_iff.mpr ⟨_, rfl, ?_⟩
  refine Option.bind_eq_some_iff.mpr ⟨_, rfl, ?_⟩
  refine Option.bind_eq_some_iff.mpr ⟨_, rfl, ?_⟩
  refine Option.bind_eq_some_iff.mpr ⟨_, optionalField?_string rfl, ?_⟩
  refine Option.bind_eq_some_iff.mpr ⟨_, rfl, ?_⟩
  refine Option.bind_eq_some_iff.mpr ⟨_, r.timestamp.readReport?_reportText, ?_⟩
  exact Option.bind_eq_some_iff.mpr ⟨_, ReportData.ofJson?_toJson h.finite h.fits, rfl⟩

/-- Every member of a report is wanted. -/
theorem covers_toJson (r : Report) : (Wanted.members fieldNames).Covers r.toJson := by
  refine ⟨rfl, ?_⟩
  simp only [List.forall_mem_cons]
  exact ⟨rfl, rfl, rfl, rfl, rfl, rfl, List.forall_mem_nil _⟩

theorem read_of_readWanted? (h : r.IsStorable) {text : String}
    (hread : readWanted? (.members fieldNames) text = some r.toJson) : read text = .ok r := by
  rw [read, hread, Option.bind_some, ofJson?_toJson h]

theorem read_compact (h : r.IsStorable) : read r.toJson.compact = .ok r :=
  read_of_readWanted? h (readWanted?_layouts r.covers_toJson (exact_toJson h)).1

theorem read_pretty (h : r.IsStorable) : read r.toJson.pretty = .ok r :=
  read_of_readWanted? h (readWanted?_layouts r.covers_toJson (exact_toJson h)).2

/-- **Reports are read back.** The text of a report in either layout is read as that report: the
same kind of result, the same numbers to the bit, and the same values missing.

There are two parts to this. A text that is written from a value in range is read as the value, in
any layout; and a report is found in the value that is made from it, whose members stand under their
own names. -/
theorem read_toJson (h : r.IsStorable) :
    read r.toJson.compact = .ok r ∧ read r.toJson.pretty = .ok r :=
  ⟨read_compact h, read_pretty h⟩

/-- A combination without details, a negative zero among its figures and a row of missing values. -/
def idleData : ReportData :=
  .combination {
    result := {
      metrics := {
        icMean := -0.0, icStd := 0, icIr := 0, tStat := 0, pValue := 1, icPositivePct := 0
        sharpe := -0.0, sortino := 0, calmar := 0, winRate := 0, profitFactor := 0, avgWin := 0
        avgLoss := 0, maxDrawdown := 0, totalReturn := 0, annualizedReturn := 0
        annualizedVol := 0, turnover := 0, factorAutocorr := 0, numTrades := 0
        numObservations := 0, periods := 1, nQuantiles := 5, score := 12.5
        isValidFactor := false, validityReason := "no trades"
        validityChecks := ⟨false, false, false, false, false⟩
        quantileAnalysis := ⟨false, 0⟩ }
      equityCurve := [⟨.midnight ⟨2020, 2, 29, by decide, by decide, by decide⟩, none,
        some (-0.0), none, none, some 0.1⟩]
      icHistogram := [], csIcData := [], layerData := [] }
    factorDetails := [] }

/-- A report that is stamped in a leap second. -/
def idle (id : String) : Report where
  id := id
  name := "idle"
  description := "nothing\n\"at all\""
  expression := none
  timestamp := ⟨⟨2020, 2, 29, by decide, by decide, by decide⟩, 86399, 1500000000, by decide,
    by decide, by decide⟩
  data := idleData

theorem isStorable_idle (id : String) : (idle id).IsStorable where
  finite := by
    show ∀ v ∈ idleData.numbers, isFinite v = true
    decide +kernel
  fits := by
    show ∀ n ∈ idleData.counts, n < 2 ^ 64
    decide

theorem read_toJson_idle : (idle "a-1").IsStorable ∧
    read (idle "a-1").toJson.compact = .ok (idle "a-1") ∧
    read (idle "a-1").toJson.pretty = .ok (idle "a-1") :=
  ⟨isStorable_idle "a-1", read_toJson (isStorable_idle "a-1")⟩

end Report

end FactorStudy
