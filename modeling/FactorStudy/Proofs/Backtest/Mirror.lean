import FactorStudy.Proofs.Backtest.Legs
import FactorStudy.Proofs.Backtest.Rescaling
import FactorStudy.Proofs.Double.TotalOrder

/-!
# The opposite factor

Turning a factor around turns its order around. When the layers are equal in size and no two values
tie, the lowest layer becomes the highest, and the portfolio is short where it was long: its returns
are the opposite ones, and each layer is summed up as its mirror image was (`run_neg`). Nothing else
changes, so no side of the portfolio is favoured.
-/

namespace FactorStudy

open Number

/-! ## The layers turned around -/

namespace Layers

variable {values : List Float}

/-- The opposite values, if no two are the same, are in the opposite order. -/
theorem order_neg (hdef : ∀ v ∈ values, isNaN v = false)
    (hdistinct : (values.map totalOrderKey).Nodup) :
    order (values.map (- ·)) = (order values).reverse := by
  -- an order is known from its places alone: all of them, each before the next
  refine (eq_order ?_ ?_).symm
  · rw [List.length_map]
    exact (List.reverse_perm _).trans (order_perm values)
  · refine List.pairwise_reverse.mpr ((pairwise_order values).imp_of_mem ?_)
    intro i j hi hj hij
    have hi := List.mem_range.mp ((order_perm values).mem_iff.mp hi)
    have hj := List.mem_range.mp ((order_perm values).mem_iff.mp hj)
    -- a tie would be between two of the values, and no two are the same
    have hlt : key values i < key values j := by
      refine hij.resolve_right ?_
      rintro ⟨heq, hne⟩
      rw [key_eq hi, key_eq hj] at heq
      have hi' : i < (values.map totalOrderKey).length := by rwa [List.length_map]
      have hj' : j < (values.map totalOrderKey).length := by rwa [List.length_map]
      have hsame : (values.map totalOrderKey)[i] = (values.map totalOrderKey)[j] := by
        rwa [List.getElem_map, List.getElem_map]
      exact Nat.ne_of_lt hne (hdistinct.getElem_inj_iff.mp hsame)
    rw [key_eq hi, key_eq hj] at hlt
    rw [Before, key_map _ hj, key_map _ hi, totalOrderKey_neg (hdef _ (List.getElem_mem hi)),
      totalOrderKey_neg (hdef _ (List.getElem_mem hj))]
    omega

/-- Counted from the other end, a place is in the layer counted from the other end. -/
theorem mirror_div {m q k : ℕ} (hk : k < m * q) :
    (m * q - 1 - k) * q / (m * q) = q - 1 - k * q / (m * q) := by
  have hq : 0 < q := Nat.pos_of_ne_zero fun h => by simp [h] at hk
  rw [Nat.mul_div_mul_right _ _ hq, Nat.mul_div_mul_right _ _ hq, Nat.sub_sub, Nat.add_comm 1 k,
    Nat.mul_sub_div k m q hk]
  omega

/-- Layers of equal size are turned around with the values. -/
theorem assign_neg {m quantiles : ℕ} (hsize : values.length = m * quantiles)
    (hdef : ∀ v ∈ values, isNaN v = false) (hdistinct : (values.map totalOrderKey).Nodup) :
    assign (values.map (- ·)) quantiles =
      (assign values quantiles).map fun layer => quantiles - 1 - layer := by
  refine List.ext_getElem? fun i => ?_
  by_cases hi : i < values.length
  · obtain ⟨k, hk, hplace⟩ := exists_place hi
    -- the value is as far from the end of one order as it is from the start of the other
    have hmirror : (order (values.map (- ·)))[values.length - 1 - k]? = some i := by
      have hlen : (order values).length = values.length := by
        rw [(order_perm values).length_eq, List.length_range]
      rw [order_neg hdef hdistinct, List.getElem?_reverse (by omega), hlen, ← hplace]
      congr 1
      omega
    rw [getElem?_assign hmirror, List.getElem?_map, getElem?_assign hplace, Option.map_some,
      List.length_map, hsize, mirror_div (hsize ▸ hk)]
  · rw [List.getElem?_eq_none, List.getElem?_eq_none]
    · rw [List.length_map, length_assign]
      exact not_lt.mp hi
    · rw [length_assign, List.length_map]
      exact not_lt.mp hi

end Layers

namespace Backtest

/-! ## The observations turned around -/

/-- An observation as the opposite factor makes it. -/
def mirror (quantiles : ℕ) (o : Observation Float) : Observation Float :=
  { o with factor := -o.factor, layer := quantiles - 1 - o.layer }

section Opposite

variable {factor : FactorSeries Float} {panel : Panel Float} {config : BacktestConfig Float} {m : ℕ}

/-- The defined values of a factor stay finite under a minus. -/
theorem isFinite_neg_of_defined (factor : FactorSeries Float) :
    ∀ v ∈ Series.defined factor.values, isFinite (-v) = true := by
  intro v hv
  exact (Double.isFinite_neg v).trans (factor.isFinite_of_defined hv)

theorem observe_neg (hsize : (observe factor panel config).length = m * config.quantiles)
    (hdistinct : ((observe factor panel config).map fun o => totalOrderKey o.factor).Nodup) :
    observe (factor.map (- ·)) panel config =
      (observe factor panel config).map (mirror config.quantiles) := by
  have hfinite := isFinite_neg_of_defined factor
  have hlength : (observed factor panel config).length = m * config.quantiles := by
    rw [← map_factor_observe, List.length_map, hsize]
  have hkeys : (observed factor panel config).map totalOrderKey =
      (observe factor panel config).map fun o => totalOrderKey o.factor := by
    rw [← map_factor_observe, List.map_map]
    rfl
  have hdef : ∀ v ∈ observed factor panel config, isNaN v = false := by
    intro v hv
    exact Double.isNaN_of_isFinite (factor.isFinite_of_defined (defined_of_mem_observed hv))
  rw [observe_eq, observed_map hfinite, Layers.assign_neg hlength hdef (hkeys ▸ hdistinct),
    points_map hfinite, List.zipWith_map, observe_eq, List.map_zipWith]
  rfl

end Opposite

/-! ## The layers summed up -/

section Summed

variable {observations : List (Observation Float)} {quantiles : ℕ}
  (hlayered : ∀ o ∈ observations, o.layer < quantiles)

include hlayered

/-- What is in a layer now was in its mirror image. -/
theorem filter_mirror {k : ℕ} (hk : k < quantiles) :
    (observations.map (mirror quantiles)).filter (fun o => o.layer == k) =
      (observations.filter fun o => o.layer == quantiles - 1 - k).map (mirror quantiles) := by
  rw [List.filter_map]
  congr 1
  refine List.filter_congr ?_
  intro o ho
  have hlt := hlayered o ho
  show (quantiles - 1 - o.layer == k) = (o.layer == quantiles - 1 - k)
  rw [Bool.eq_iff_iff, beq_iff_eq, beq_iff_eq]
  omega

/-- What is in one of the outermost layers now was in the other one. -/
theorem filter_held_mirror : (observations.map (mirror quantiles)).filter
      (fun o => o.layer == 0 || o.layer == quantiles - 1) =
    (observations.filter fun o => o.layer == 0 || o.layer == quantiles - 1).map (mirror quantiles) := by
  rw [List.filter_map]
  congr 1
  refine List.filter_congr ?_
  intro o ho
  have hlt := hlayered o ho
  show (quantiles - 1 - o.layer == 0 || quantiles - 1 - o.layer == quantiles - 1) = _
  rw [Bool.eq_iff_iff, Bool.or_eq_true, Bool.or_eq_true]
  simp only [beq_iff_eq]
  omega

theorem summary_mirror {k : ℕ} (hk : k < quantiles) (annualization : Float) :
    Layers.summary (observations.map (mirror quantiles)) annualization k =
      { Layers.summary observations annualization (quantiles - 1 - k) with layer := k + 1 } := by
  simp only [Layers.summary, filter_mirror hlayered hk, List.map_map, Function.comp_def, mirror]

end Summed

end Backtest

namespace Layers

/-- The mean returns of the layers that are not empty. -/
def means (layers : List (LayerSummary Float)) : List Float :=
  (layers.filter fun l => 0 < l.count).map (·.meanReturn)

theorem isMonotonic_eq (layers : List (LayerSummary Float)) : isMonotonic layers =
    (decide (2 ≤ (means layers).length) &&
      (((means layers).zip (means layers).tail).all (fun (a, b) => decide (a ≤ b)) ||
        ((means layers).zip (means layers).tail).all fun (a, b) => decide (b ≤ a))) := rfl

/-- Two entries follow each other in a list if they do so in the other order in its reverse. -/
theorem mem_steps_reverse {x : List Float} {a b : Float} :
    (a, b) ∈ x.reverse.zip x.reverse.tail ↔ (b, a) ∈ x.zip x.tail := by
  -- one direction for every list; the other is that direction for the reverse
  have hsteps : ∀ {x : List Float} {a b : Float}, (a, b) ∈ x.zip x.tail →
      (b, a) ∈ x.reverse.zip x.reverse.tail := by
    intro x a b h
    obtain ⟨i, hi⟩ := List.mem_iff_getElem?.mp h
    rw [List.getElem?_zip_eq_some, List.getElem?_tail] at hi
    obtain ⟨ha, hb⟩ := hi
    have hlt := (List.getElem?_eq_some_iff.mp hb).1
    refine List.mem_iff_getElem?.mpr ⟨x.length - 1 - (i + 1), ?_⟩
    rw [List.getElem?_zip_eq_some, List.getElem?_tail, List.getElem?_reverse (by omega),
      List.getElem?_reverse (by omega), ← ha, ← hb]
    constructor
    · congr 1
      omega
    · congr 1
      omega
  constructor
  · intro h
    have hback := hsteps h
    rwa [List.reverse_reverse] at hback
  · exact hsteps

/-- Layers the other way around rise where they fell. -/
theorem isMonotonic_of_means {layers layers' : List (LayerSummary Float)}
    (h : means layers' = (means layers).reverse) : isMonotonic layers' = isMonotonic layers := by
  -- a step of the reversed list is a step of the list backwards
  have hall : ∀ p : Float × Float → Bool,
      ((means layers').zip (means layers').tail).all p =
        ((means layers).zip (means layers).tail).all fun (a, b) => p (b, a) := by
    intro p
    rw [h, Bool.eq_iff_iff, List.all_eq_true, List.all_eq_true]
    constructor
    · rintro hp ⟨a, b⟩ hab
      exact hp (b, a) (mem_steps_reverse.mpr hab)
    · rintro hp ⟨a, b⟩ hab
      exact hp (b, a) (mem_steps_reverse.mp hab)
  have hlength : (means layers').length = (means layers).length := by
    rw [h, List.length_reverse]
  rw [isMonotonic_eq, isMonotonic_eq, hlength, hall, hall, Bool.or_comm]

/-- Summaries of the same layers, counted from the other end. -/
theorem means_mirror {quantiles : ℕ} {summary summary' : ℕ → LayerSummary Float}
    (h : ∀ k < quantiles, summary' k = { summary (quantiles - 1 - k) with layer := k + 1 }) :
    means ((List.range quantiles).map summary') =
      (means ((List.range quantiles).map summary)).reverse := by
  have hmirrored : (List.range quantiles).map summary' = (List.range quantiles).map
      fun k => { summary (quantiles - 1 - k) with layer := k + 1 } :=
    List.map_congr_left fun k hk => h k (List.mem_range.mp hk)
  have hback : (List.range quantiles).reverse = (List.range quantiles).map (quantiles - 1 - ·) := by
    rw [List.range_eq_range', List.reverse_range', ← List.range_eq_range', Nat.zero_add]
  rw [means, means, hmirrored, List.filter_map, List.filter_map, List.map_map, List.map_map,
    ← List.map_reverse, ← List.filter_reverse, hback, List.filter_map, List.map_map]
  rfl

end Layers

/-! ## The run turned around -/

namespace Backtest

/-- The positions in the panel of the observations at which something is held. -/
def active (bt : Backtest Float) : List ℕ :=
  match legs? bt.observations with
  | some (bottom, top) =>
    (bt.observations.filter fun o => o.layer == bottom || o.layer == top).map (·.index)
  | none => []

/-- A backtest and that of the opposite factor. -/
structure Mirrors (quantiles : ℕ) (bt bt' : Backtest Float) : Prop where
  /-- The observations are the same, in mirrored layers. -/
  observations : bt'.observations = bt.observations.map (mirror quantiles)
  /-- Returns and spread are the opposite ones, in the equality of doubles, for which the two zeros
  are the same. -/
  longShort : List.Forall₂ (fun r r' => (r' == -r) = true) bt.longShort bt'.longShort
  spread : (bt'.spread == -bt.spread) = true
  isMonotonic : bt'.isMonotonic = bt.isMonotonic
  numTrades : bt'.stats.numTrades = bt.stats.numTrades
  active : active bt' = active bt
  /-- Each layer is summed up as its mirror image was, under its own number. -/
  layers : ∀ k < quantiles, ∃ l, bt.layers[quantiles - 1 - k]? = some l ∧
    bt'.layers[k]? = some { l with layer := k + 1 }

section Run

variable {factor : FactorSeries Float} {panel : Panel Float} {config : BacktestConfig Float} {m : ℕ}
  (hm : 0 < m) (hsize : (observe factor panel config).length = m * config.quantiles)
  (hdistinct : ((observe factor panel config).map fun o => totalOrderKey o.factor).Nodup)

include hm hsize

/-- With so many observations no layer is empty. -/
theorem extremes?_observe :
    extremes? (observe factor panel config) = some (0, config.quantiles - 1) := by
  have hq := one_lt_quantiles config
  -- a layer with no observation would have no place, but each has the same number
  have hoccupied : ∀ k < config.quantiles, k ∈ occupied (observe factor panel config) := by
    intro k hk
    have hmem : k ∈ (observe factor panel config).map (·.layer) := by
      rw [map_layer_observe]
      refine List.count_pos_iff.mp (Layers.count_assign_pos _ ?_ hk)
      rw [List.length_map, ← length_layers, ← map_layer_observe, List.length_map, hsize]
      exact Nat.le_mul_of_pos_left _ hm
    exact List.mem_map.mp hmem
  refine extremes?_eq_some_iff.mpr ⟨⟨hoccupied 0 (by omega), ?_⟩, hoccupied _ (by omega), ?_⟩
  · exact fun _ _ => Nat.zero_le _
  · rintro _ ⟨o, ho, rfl⟩
    have hlt := (observes_observe factor panel config).layered o ho
    omega

theorem legs?_observe : legs? (observe factor panel config) = some (0, config.quantiles - 1) := by
  have hq := one_lt_quantiles config
  rw [legs?, extremes?_observe hm hsize, Option.filter_some, if_pos (decide_eq_true (by omega))]

/-- The spread is that between the summaries of the outermost layers. -/
theorem spread_run : (run factor panel config).spread =
    orZero ((Layers.summary (observe factor panel config) config.annualization
        (config.quantiles - 1)).meanReturn -
      (Layers.summary (observe factor panel config) config.annualization 0).meanReturn) := by
  have hq := one_lt_quantiles config
  simp only [run, extremes?_observe hm hsize, List.getElem?_map,
    List.getElem?_range (show config.quantiles - 1 < config.quantiles by omega),
    List.getElem?_range (show 0 < config.quantiles by omega), Option.map_some, Option.getD_some]

omit hm hsize in
/-- What is held on an observation in a mirrored layer is the opposite. -/
theorem return_mirror {quantiles : ℕ} (hq : 1 < quantiles) {o : Observation Float}
    (hlayer : o.layer < quantiles) (hfinite : isFinite o.forward = true) :
    (position 0 (quantiles - 1) (mirror quantiles o) * (mirror quantiles o).forward ==
      -(position 0 (quantiles - 1) o * o.forward)) = true := by
  have hheld := held_position 0 (quantiles - 1) hfinite
  have hheld' := held_position 0 (quantiles - 1) (o := mirror quantiles o) hfinite
  have hdef := Double.isNaN_of_isFinite hfinite
  generalize position 0 (quantiles - 1) o * o.forward = r at *
  generalize position 0 (quantiles - 1) (mirror quantiles o) * (mirror quantiles o).forward = r' at *
  have hmirror : (mirror quantiles o).layer = quantiles - 1 - o.layer := rfl
  rw [Held] at hheld hheld'
  by_cases htop : o.layer = quantiles - 1
  · -- long before, short now
    rw [if_pos htop] at hheld
    rw [if_neg (by omega), if_pos (by omega)] at hheld'
    rw [hheld, hheld']
    exact Double.beq_self ((Double.isNaN_neg _).trans hdef)
  · by_cases hbottom : o.layer = 0
    · rw [if_neg htop, if_pos hbottom] at hheld
      rw [if_pos (by omega)] at hheld'
      rw [hheld, hheld', Double.neg_neg]
      exact Double.beq_self hdef
    · -- no position in either
      rw [if_neg htop, if_neg hbottom] at hheld
      rw [if_neg (by omega), if_neg (by omega)] at hheld'
      obtain ⟨hr, hvalue⟩ := Double.value_of_beq_zero hheld
      obtain ⟨hr', hvalue'⟩ := Double.value_of_beq_zero hheld'
      rw [Double.beq_iff_value hr' ((Double.isNaN_neg r).trans hr), Double.value_neg, hvalue, hvalue',
        neg_zero]

omit hm hsize in
theorem orZero_sub_mirror {a b : Float} (ha : isFinite a = true) (hb : isFinite b = true) :
    (orZero (a - b) == -orZero (b - a)) = true := by
  have hopposite := Double.sub_beq_neg_sub ha hb
  have hab := (Double.roundsTo_sub ha hb).1
  have hba := (Double.roundsTo_sub hb ha).1
  have hvalue := (Double.beq_iff_value hab ((Double.isNaN_neg _).trans hba)).mp hopposite
  have hfinite : isFinite (a - b) = isFinite (b - a) := by
    rw [Bool.eq_iff_iff, Double.isFinite_iff_value hab, Double.isFinite_iff_value hba, hvalue,
      Double.value_neg, abs_neg]
  rw [orZero, orZero, hfinite]
  split
  · exact hopposite
  · rfl

include hdistinct

/-- **The opposite factor mirrors the backtest.** If the observations can be cut into layers of
equal size and no two of their values are the same, then under the opposite factor each is in the
mirrored layer, the portfolio earns the opposite, on the same observations, and the layers are the
same in reverse.

Without the first condition a cut does not fall between the same observations from the other end,
and without the second a tie is broken by time, which is not mirrored. -/
theorem run_neg : Mirrors config.quantiles (run factor panel config)
    (run (factor.map (- ·)) panel config) := by
  have hq := one_lt_quantiles config
  have hobserve := observe_neg hsize hdistinct
  have hsize' : (observe (factor.map (- ·)) panel config).length = m * config.quantiles := by
    rw [hobserve, List.length_map, hsize]
  have hobserves := observes_observe factor panel config
  -- with layers of equal size all are occupied, so the legs are the first and the last
  have hlegs := legs?_observe hm hsize
  have hlegs' := legs?_observe hm hsize'
  have hsummary : ∀ k < config.quantiles,
      Layers.summary (observe (factor.map (- ·)) panel config) config.annualization k =
        { Layers.summary (observe factor panel config) config.annualization
            (config.quantiles - 1 - k) with layer := k + 1 } := by
    intro k hk
    rw [hobserve, summary_mirror hobserves.layered hk]
  refine ⟨hobserve, ?_, ?_, ?_, ?_, ?_, ?_⟩
  · rw [longShort_run hlegs, longShort_run hlegs', hobserve, List.map_map,
      List.forall₂_map_left_iff, List.forall₂_map_right_iff, List.forall₂_same]
    intro o ho
    exact return_mirror hq (hobserves.layered o ho) (hobserves.isFinite_forward ho)
  · have hlast : config.quantiles - 1 - 0 = config.quantiles - 1 := Nat.sub_zero _
    have hfirst : config.quantiles - 1 - (config.quantiles - 1) = 0 := Nat.sub_self _
    rw [spread_run hm hsize, spread_run hm hsize', hsummary _ (by omega), hsummary _ (by omega),
      hlast, hfirst]
    exact orZero_sub_mirror (Double.isFinite_orZero _) (Double.isFinite_orZero _)
  · exact Layers.isMonotonic_of_means (Layers.means_mirror hsummary)
  · rw [numTrades_run hlegs, numTrades_run hlegs', hobserve, filter_held_mirror hobserves.layered,
      List.length_map]
  · rw [active, active, observations_run, observations_run, hlegs, hlegs', hobserve]
    simp only [filter_held_mirror hobserves.layered, List.map_map]
    rfl
  · intro k hk
    refine ⟨Layers.summary (observe factor panel config) config.annualization
      (config.quantiles - 1 - k), ?_, ?_⟩
    · rw [layers_run, List.getElem?_map, List.getElem?_range (by omega), Option.map_some]
    · rw [layers_run, List.getElem?_map, List.getElem?_range hk, Option.map_some, hsummary k hk]

end Run

/-- The workdays of the week, one for each layer. -/
theorem run_neg_signal : 0 < 1 ∧
    (observe signal week overOneDay).length = 1 * overOneDay.quantiles ∧
    ((observe signal week overOneDay).map fun o => totalOrderKey o.factor).Nodup ∧
    Mirrors overOneDay.quantiles (run signal week overOneDay)
      (run (signal.map (- ·)) week overOneDay) := by
  have hsize : (observe signal week overOneDay).length = 1 * overOneDay.quantiles := by
    rw [← List.length_map (·.factor), map_factor_observe]
    decide +kernel
  have hdistinct : ((observe signal week overOneDay).map fun o => totalOrderKey o.factor).Nodup := by
    have hkeys : ((observe signal week overOneDay).map fun o => totalOrderKey o.factor) =
        (observed signal week overOneDay).map totalOrderKey := by
      rw [← map_factor_observe, List.map_map]
      rfl
    rw [hkeys]
    decide +kernel
  exact ⟨by decide, hsize, hdistinct, run_neg (by decide) hsize hdistinct⟩

end Backtest

end FactorStudy
