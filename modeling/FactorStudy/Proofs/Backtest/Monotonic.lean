import FactorStudy.Proofs.Backtest.Drawdown

/-!
# A factor that orders the returns

The forward returns may follow a factor without a fault: wherever one return is less than another, so
is the factor. Then no observation in a lower layer has the greater return (`forward_le_of_layer_lt`),
and a mean of lower returns is lower, however many observations a layer holds (`mean_le_mean`). So the
mean returns rise from layer to layer, past those that hold nothing, and the spread is not negative.

The rounding of a mean can break this, so the arithmetic is that of `Unrounded`. The prices may be
anything: what is observed is always a real number (`exists_real_observed`).
-/

namespace FactorStudy

open Number

/-- The mean of values that are all below some others is below theirs. -/
theorem mean_le_mean {xs ys : List ℝ} (hxs : xs ≠ []) (hys : ys ≠ [])
    (h : ∀ x ∈ xs, ∀ y ∈ ys, x ≤ y) : xs.sum / xs.length ≤ ys.sum / ys.length := by
  have hpos : ∀ {zs : List ℝ}, zs ≠ [] → (0 : ℝ) < zs.length := fun hzs => by
    exact_mod_cast List.length_pos_iff.mpr hzs
  have hbelow : ∀ y ∈ ys, xs.sum / xs.length ≤ y := by
    intro y hy
    have hsum := List.sum_le_card_nsmul xs y fun x hx => h x hx y hy
    rwa [nsmul_eq_mul, mul_comm, ← div_le_iff₀ (hpos hxs)] at hsum
  have hsum := List.card_nsmul_le_sum ys _ hbelow
  rwa [nsmul_eq_mul, mul_comm, ← le_div_iff₀ (hpos hys)] at hsum

namespace Layers

variable {α : Type} [Number α]

/-! ## Layers and values -/

/-- The place in the order holds the value. -/
theorem getElem?_of_place {values : List α} {k i : ℕ} {v : α} (hk : (order values)[k]? = some i)
    (hv : values[i]? = some v) :
    (values.zipIdx.mergeSort fun p q => totalLe p.1 q.1)[k]? = some (v, i) := by
  rw [order, List.getElem?_map] at hk
  obtain ⟨⟨w, j⟩, hp, rfl⟩ := Option.map_eq_some_iff.mp hk
  have hw := List.mem_zipIdx_iff_getElem?.mp
    ((List.mergeSort_perm _ _).mem_iff.mp (List.mem_of_getElem? hp))
  rw [hv, Option.some.injEq] at hw
  rw [hp, hw]

/-- A value in a lower layer is not the greater one. -/
theorem totalLe_of_layer_lt (htrans : ∀ a b c : α, totalLe a b = true → totalLe b c = true →
      totalLe a c = true) (htotal : ∀ a b : α, (totalLe a b || totalLe b a) = true)
    {values : List α} {quantiles i j l m : ℕ} {v w : α} (hv : values[i]? = some v)
    (hw : values[j]? = some w) (hl : (assign values quantiles)[i]? = some l)
    (hm : (assign values quantiles)[j]? = some m) (hlt : l < m) : totalLe v w = true := by
  obtain ⟨a, -, ha⟩ := exists_place (List.getElem?_eq_some_iff.mp hv).1
  obtain ⟨b, -, hb⟩ := exists_place (List.getElem?_eq_some_iff.mp hw).1
  rw [getElem?_assign ha, Option.some.injEq] at hl
  rw [getElem?_assign hb, Option.some.injEq] at hm
  -- `l` and `m` are shares of the places, so the lower layer is of the lower place
  have hab : a < b := by
    by_contra hba
    have hle : b * quantiles / values.length ≤ a * quantiles / values.length :=
      Nat.div_le_div_right (Nat.mul_le_mul_right _ (not_lt.mp hba))
    omega
  obtain ⟨hlta, hva⟩ := List.getElem?_eq_some_iff.mp (getElem?_of_place ha hv)
  obtain ⟨hltb, hwb⟩ := List.getElem?_eq_some_iff.mp (getElem?_of_place hb hw)
  -- and the places are those of a sorted list
  have hsorted : (values.zipIdx.mergeSort fun p q => totalLe p.1 q.1).Pairwise
      fun p q => totalLe p.1 q.1 = true :=
    List.pairwise_mergeSort (fun p q r => htrans p.1 q.1 r.1) (fun p q => htotal p.1 q.1) _
  have hle := List.pairwise_iff_getElem.mp hsorted a b hlta hltb hab
  rwa [hva, hwb] at hle

theorem mem_assign_of_lt {values : List α} {k : ℕ} (hk : k < values.length) (quantiles : ℕ) :
    k * quantiles / values.length ∈ assign values quantiles := by
  have hlen : k < (order values).length := by
    rwa [(order_perm values).length_eq, List.length_range]
  exact List.mem_of_getElem? (getElem?_assign (List.getElem?_eq_getElem hlen))

/-- Two values are enough to have more than one layer. -/
theorem exists_layers {values : List α} {quantiles : ℕ} (htwo : 2 ≤ values.length)
    (hq : 1 < quantiles) :
    0 ∈ assign values quantiles ∧ ∃ l ∈ assign values quantiles, 0 < l := by
  have hfirst := mem_assign_of_lt (k := 0) (show 0 < values.length by omega) quantiles
  rw [Nat.zero_mul, Nat.zero_div] at hfirst
  refine ⟨hfirst, _, mem_assign_of_lt (k := values.length - 1) (by omega) quantiles, ?_⟩
  refine Nat.div_pos ?_ (by omega)
  calc values.length ≤ (values.length - 1) * 2 := by omega
    _ ≤ (values.length - 1) * quantiles := Nat.mul_le_mul_left _ hq

/-! ## Rising means -/

/-- Steps of a list that ascends go up. -/
theorem isMonotonic_of_pairwise {layers : List (LayerSummary α)}
    (htwo : 2 ≤ (layers.filter fun l => 0 < l.count).length)
    (h : (layers.filter fun l => 0 < l.count).Pairwise fun l m => l.meanReturn ≤ m.meanReturn) :
    isMonotonic layers = true := by
  -- a step is a pair of neighbours, and the list ascends
  have hsteps : ∀ p ∈ ((layers.filter fun l => 0 < l.count).map (·.meanReturn)).zip
      ((layers.filter fun l => 0 < l.count).map (·.meanReturn)).tail, p.1 ≤ p.2 := by
    intro p hp
    obtain ⟨i, hi⟩ := List.mem_iff_getElem?.mp hp
    rw [List.getElem?_zip_eq_some, List.getElem?_tail] at hi
    obtain ⟨hlt, ha⟩ := List.getElem?_eq_some_iff.mp hi.1
    obtain ⟨hlt', hb⟩ := List.getElem?_eq_some_iff.mp hi.2
    rw [← ha, ← hb]
    exact List.pairwise_iff_getElem.mp (List.pairwise_map.mpr h) i (i + 1) hlt hlt' (by omega)
  rw [isMonotonic, Bool.and_eq_true, Bool.or_eq_true, List.length_map]
  refine ⟨decide_eq_true htwo, Or.inl (List.all_eq_true.mpr ?_)⟩
  exact fun p hp => decide_eq_true (hsteps p hp)

open Unrounded

/-- The mean of returns that are real numbers. -/
theorem meanReturn_summary {observations : List (Observation Unrounded)} {layer : ℕ}
    {returns : List ℝ} (hne : returns ≠ [])
    (h : (observations.filter fun o => o.layer == layer).map (·.forward) = returns.map real)
    (annualization : Unrounded) : (summary observations annualization layer).meanReturn =
      real (returns.sum / returns.length) := by
  have hlen : (returns.length : ℝ) ≠ 0 := by
    exact_mod_cast (List.length_pos_iff.mpr hne).ne'
  have hmean : Series.mean? (returns.map real) = some (real (returns.sum / returns.length)) := by
    rw [Series.mean?, Series.average, sum_real, count, List.length_map, List.isEmpty_map,
      List.isEmpty_eq_false_iff.mpr hne, if_neg Bool.false_ne_true]
    exact congrArg some (real_div _ hlen)
  simp only [summary, h, hmean, Option.getD_some, orZero_real]

end Layers

namespace Unrounded

theorem exists_real_of_isFinite {v : Unrounded} (h : isFinite v = true) : ∃ x, v = real x := by
  cases v with
  | real x => exact ⟨x, rfl⟩
  | infinity => cases h
  | negInfinity => cases h
  | undefined => cases h

theorem exists_real_orNaN {v : Unrounded} (h : isNaN (orNaN v) = false) : ∃ x, orNaN v = real x := by
  cases v with
  | real x => exact ⟨x, rfl⟩
  | infinity => cases h
  | negInfinity => cases h
  | undefined => cases h

theorem exists_real_relativeChange {later base : Unrounded}
    (h : isNaN (Series.relativeChange later base) = false) :
    ∃ x, Series.relativeChange later base = real x := by
  unfold Series.relativeChange at *
  by_cases hbase : (base == 0) = true
  · rw [if_pos hbase] at h
    cases h
  · rw [if_neg hbase] at h ⊢
    exact exists_real_orNaN h

end Unrounded

open Unrounded

namespace Backtest

variable {factor : FactorSeries Unrounded} {panel : Panel Unrounded}
  {config : BacktestConfig Unrounded}

/-- What is observed is a real number. -/
theorem exists_real_observed {o : Observation Unrounded} (ho : o ∈ observe factor panel config) :
    (∃ f, o.factor = real f) ∧ ∃ r, o.forward = real r := by
  obtain ⟨⟨hfactor, hdef⟩, hforward, hdef'⟩ := mem_aligned_iff.mp (mem_aligned_of_mem_observe ho)
  constructor
  · rcases factor.clean _ (List.mem_of_getElem? hfactor) with hfinite | hnan
    · exact exists_real_of_isFinite hfinite
    · rw [hnan] at hdef
      cases hdef
  · rcases Returns.eq_nan_or_change_of_mem (List.mem_of_getElem? hforward) with
      hnan | ⟨base, -, later, -, hchange⟩
    · rw [hnan] at hdef'
      cases hdef'
    · rw [hchange] at hdef' ⊢
      exact exists_real_relativeChange hdef'

/-- The returns of a layer with observations are real numbers, with their mean. -/
theorem exists_returns {k : ℕ}
    (hk : 0 < (Layers.summary (observe factor panel config) config.annualization k).count) :
    ∃ returns : List ℝ, returns ≠ [] ∧
      (Layers.summary (observe factor panel config) config.annualization k).meanReturn =
        real (returns.sum / returns.length) ∧
      ∀ r ∈ returns, ∃ o ∈ observe factor panel config, o.layer = k ∧ o.forward = real r := by
  -- an observation has a return, which without rounding is a real number
  have hreal : ∀ v ∈ ((observe factor panel config).filter fun o => o.layer == k).map (·.forward),
      ∃ x, real x = v := by
    rw [List.forall_mem_map]
    intro o ho
    obtain ⟨-, x, hx⟩ := exists_real_observed (List.mem_filter.mp ho).1
    exact ⟨x, hx.symm⟩
  obtain ⟨returns, hreturns⟩ := (Set.range_list_map real).ge hreal
  have hne : returns ≠ [] := by
    rintro rfl
    have hcount : (Layers.summary (observe factor panel config) config.annualization k).count =
        ([] : List ℝ).length := (congrArg List.length hreturns).symm
    rw [hcount] at hk
    cases hk
  refine ⟨returns, hne, Layers.meanReturn_summary hne hreturns.symm _, ?_⟩
  intro r hr
  have hmem := List.mem_map_of_mem (f := real) hr
  rw [hreturns] at hmem
  obtain ⟨o, ho, hforward⟩ := List.mem_map.mp hmem
  obtain ⟨ho, hlayer⟩ := List.mem_filter.mp ho
  exact ⟨o, ho, eq_of_beq hlayer, hforward⟩

theorem eq_summary {i : ℕ} {l : LayerSummary Unrounded}
    (hl : (run factor panel config).layers[i]? = some l) :
    l = Layers.summary (observe factor panel config) config.annualization i := by
  rw [layers_run, List.getElem?_map] at hl
  obtain ⟨k, hk, rfl⟩ := Option.map_eq_some_iff.mp hl
  obtain ⟨-, rfl⟩ := List.getElem?_eq_some_iff.mp hk
  rw [List.getElem_range]

/-- A layer that something was observed in has a summary that counts it. -/
theorem count_pos_of_mem {k : ℕ} (hk : k ∈ (observe factor panel config).map (·.layer)) :
    k < config.quantiles ∧
      0 < (Layers.summary (observe factor panel config) config.annualization k).count := by
  have hq := one_lt_quantiles config
  constructor
  · rw [map_layer_eq_assign] at hk
    exact Layers.lt_of_mem_assign (by omega) hk
  · rw [Layers.count_summary]
    exact List.count_pos_iff.mpr hk

/-- How the layers of a run stand to each other when their means rise. -/
structure Rises (bt : Backtest Unrounded) : Prop where
  /-- Of two layers with observations the higher one does not have the lower mean return. -/
  means : ∀ (i j : ℕ) (l m : LayerSummary Unrounded), i ≤ j → bt.layers[i]? = some l →
    bt.layers[j]? = some m → 0 < l.count → 0 < m.count → l.meanReturn ≤ m.meanReturn
  monotonic : bt.isMonotonic = true
  spread : 0 ≤ bt.spread

section Follows

variable (h : ∀ o ∈ observe factor panel config, ∀ p ∈ observe factor panel config,
  o.forward < p.forward → o.factor < p.factor)

include h

/-- A return in a lower layer is not the greater one. -/
theorem forward_le_of_layer_lt {o p : Observation Unrounded} (ho : o ∈ observe factor panel config)
    (hp : p ∈ observe factor panel config) (hlt : o.layer < p.layer) {x y : ℝ}
    (hx : o.forward = real x) (hy : p.forward = real y) : x ≤ y := by
  obtain ⟨i, hi⟩ := List.mem_iff_getElem?.mp ho
  obtain ⟨j, hj⟩ := List.mem_iff_getElem?.mp hp
  have hlayer : ∀ {k : ℕ} {o : Observation Unrounded}, (observe factor panel config)[k]? = some o →
      (Layers.assign ((observe factor panel config).map (·.factor)) config.quantiles)[k]? =
        some o.layer := by
    intro k o hk
    rw [← map_layer_eq_assign, List.getElem?_map, hk]
    rfl
  have hfactor : ∀ {k : ℕ} {o : Observation Unrounded}, (observe factor panel config)[k]? = some o →
      ((observe factor panel config).map (·.factor))[k]? = some o.factor := by
    intro k o hk
    rw [List.getElem?_map, hk]
    rfl
  have hle := Layers.totalLe_of_layer_lt Unrounded.totalLe_trans Unrounded.totalLe_total (hfactor hi)
    (hfactor hj) (hlayer hi) (hlayer hj) hlt
  obtain ⟨⟨f, hf⟩, -⟩ := exists_real_observed ho
  obtain ⟨⟨g, hg⟩, -⟩ := exists_real_observed hp
  rw [hf, hg, totalLe_real_iff] at hle
  -- if the return were the greater one, so would be the factor, and the layer with it
  by_contra hyx
  have hback := h p hp o ho (by rw [hx, hy, real_lt_real]; exact not_le.mp hyx)
  rw [hf, hg, real_lt_real] at hback
  linarith

theorem meanReturn_le {k l : ℕ} (hkl : k ≤ l)
    (hk : 0 < (Layers.summary (observe factor panel config) config.annualization k).count)
    (hl : 0 < (Layers.summary (observe factor panel config) config.annualization l).count) :
    (Layers.summary (observe factor panel config) config.annualization k).meanReturn ≤
      (Layers.summary (observe factor panel config) config.annualization l).meanReturn := by
  obtain ⟨xs, hxs, hmean, hlow⟩ := exists_returns hk
  obtain ⟨ys, hys, hmean', hhigh⟩ := exists_returns hl
  rcases hkl.eq_or_lt with rfl | hlt
  · rw [hmean]
    exact real_le_real.mpr le_rfl
  · -- every return in the lower layer is at most every one in the higher
    rw [hmean, hmean', real_le_real]
    refine mean_le_mean hxs hys fun x hx y hy => ?_
    obtain ⟨o, ho, rfl, hx⟩ := hlow x hx
    obtain ⟨p, hp, rfl, hy⟩ := hhigh y hy
    exact forward_le_of_layer_lt h ho hp hlt hx hy

theorem spread_nonneg : 0 ≤ (run factor panel config).spread := by
  cases hextremes : extremes? (observe factor panel config) with
  | none =>
    -- without observations there are no means to compare
    have hspread : (run factor panel config).spread = 0 := by simp only [run, hextremes]
    rw [hspread, zero_eq]
    exact real_le_real.mpr le_rfl
  | some layers =>
    obtain ⟨bottom, top⟩ := layers
    obtain ⟨lo, hlo, hi, hhi, heq⟩ : ∃ lo, ((observe factor panel config).map (·.layer)).min? =
        some lo ∧ ∃ hi, ((observe factor panel config).map (·.layer)).max? = some hi ∧
          (lo, hi) = (bottom, top) := by
      simpa only [extremes?, Option.bind_eq_bind, Option.bind_eq_some_iff, Option.pure_def,
        Option.some.injEq] using hextremes
    cases heq
    -- the extreme layers are occupied, so both have a mean, and the means are in order
    obtain ⟨hbottom, hle⟩ := List.min?_eq_some_iff.mp hlo
    obtain ⟨htop, -⟩ := List.max?_eq_some_iff.mp hhi
    obtain ⟨hltb, hcountb⟩ := count_pos_of_mem hbottom
    obtain ⟨hltt, hcountt⟩ := count_pos_of_mem htop
    have hspread : (run factor panel config).spread =
        orZero ((Layers.summary (observe factor panel config) config.annualization top).meanReturn -
          (Layers.summary (observe factor panel config) config.annualization bottom).meanReturn) := by
      simp only [run, hextremes, List.getElem?_map, List.getElem?_range hltb,
        List.getElem?_range hltt, Option.map_some, Option.getD_some]
    have hmeans := meanReturn_le h (hle top htop) hcountb hcountt
    obtain ⟨xs, -, hmean, -⟩ := exists_returns hcountb
    obtain ⟨ys, -, hmean', -⟩ := exists_returns hcountt
    rw [hmean, hmean', real_le_real] at hmeans
    rw [hspread, hmean, hmean', real_sub, orZero_real, zero_eq, real_le_real]
    exact sub_nonneg.mpr hmeans

/-- **A factor that orders the returns** has layers whose mean returns rise. Before rounding, and
with two observations at least, no occupied layer has a lower mean than one below it, the layers are
found to be monotonic, and the spread is not negative.

Of two layers every return in the lower one is at most every return in the higher one, so the means
are in that order, whatever the numbers of observations in them. Empty layers have no mean and are
passed over. -/
theorem rises_run (htwo : 2 ≤ (observe factor panel config).length) :
    (run factor panel config).Rises := by
  have hlen : 2 ≤ ((observe factor panel config).map (·.factor)).length := by
    rwa [List.length_map]
  obtain ⟨hbottom, top, htop, hpos⟩ := Layers.exists_layers hlen (one_lt_quantiles config)
  rw [← map_layer_eq_assign] at hbottom htop
  refine ⟨?_, ?_, spread_nonneg h⟩
  · intro i j l m hij hl hm hlcount hmcount
    obtain rfl := eq_summary hl
    obtain rfl := eq_summary hm
    exact meanReturn_le h hij hlcount hmcount
  · show Layers.isMonotonic (run factor panel config).layers = true
    rw [layers_run]
    refine Layers.isMonotonic_of_pairwise ?_ ?_
    · -- the lowest layer is not the only one that holds something
      have hsub : [0, top] ⊆ (List.range config.quantiles).filter fun k => decide
          (0 < (Layers.summary (observe factor panel config) config.annualization k).count) := by
        have hmem : ∀ k ∈ (observe factor panel config).map (·.layer),
            k ∈ (List.range config.quantiles).filter fun k => decide
              (0 < (Layers.summary (observe factor panel config) config.annualization k).count) :=
          fun k hk => List.mem_filter.mpr ⟨List.mem_range.mpr (count_pos_of_mem hk).1,
            decide_eq_true (count_pos_of_mem hk).2⟩
        simp only [List.cons_subset, List.nil_subset, and_true]
        exact ⟨hmem 0 hbottom, hmem top htop⟩
      have hnodup : [0, top].Nodup := by
        rw [List.nodup_cons, List.mem_singleton]
        exact ⟨hpos.ne, List.nodup_singleton top⟩
      rw [List.filter_map, List.length_map]
      exact (List.subperm_of_subset hnodup hsub).length_le
    · rw [List.filter_map, List.pairwise_map]
      refine (List.pairwise_lt_range.filter _).imp_of_mem fun hk hl hlt => ?_
      exact meanReturn_le h hlt.le (of_decide_eq_true (List.mem_filter.mp hk).2)
        (of_decide_eq_true (List.mem_filter.mp hl).2)

end Follows

end Backtest

/-- On a price that falls by less every day, the day orders the returns. -/
theorem rises_run_moving : (∀ o ∈ Backtest.observe growing (moving (1 / 2) (1 / 3)) overnight,
    ∀ p ∈ Backtest.observe growing (moving (1 / 2) (1 / 3)) overnight,
      o.forward < p.forward → o.factor < p.factor) ∧
    2 ≤ (Backtest.observe growing (moving (1 / 2) (1 / 3)) overnight).length ∧
    (Backtest.run growing (moving (1 / 2) (1 / 3)) overnight).Rises := by
  have hobserve := observe_moving (a := 1 / 2) (b := 1 / 3) (by norm_num) (by norm_num)
  have hfollows : ∀ o ∈ Backtest.observe growing (moving (1 / 2) (1 / 3)) overnight,
      ∀ p ∈ Backtest.observe growing (moving (1 / 2) (1 / 3)) overnight,
        o.forward < p.forward → o.factor < p.factor := by
    rw [hobserve]
    simp only [List.forall_mem_cons, List.not_mem_nil, false_imp_iff, implies_true, and_true,
      real_lt_real]
    norm_num
  have htwo : 2 ≤ (Backtest.observe growing (moving (1 / 2) (1 / 3)) overnight).length := by
    rw [hobserve]
    decide
  exact ⟨hfollows, htwo, Backtest.rises_run hfollows htwo⟩

end FactorStudy
