import FactorStudy.Backtest.Basic
import FactorStudy.Proofs.Backtest.Layering
import FactorStudy.Proofs.Double.Undefined
import FactorStudy.Proofs.Outcome

/-!
# What a backtest observes

An observation pairs the factor of a bar with the return of holding the symbol from there on. Both
have to be known. `Observes` says what that comes to: the observations are the bars at which both
are defined, each once and in order, and each in a layer.

The return of an observation ends inside the panel. It ends at a later bar as long as bar and
horizon add up to a machine word; a horizon for which the sum wraps around leads back to an earlier
bar instead. With as many bars as there are words behind the horizon no sum wraps
(`Returns.ahead_of_fits`), and only then does a build that checks its sums run at all
(`Returns.checkedForward?_eq`).
-/

namespace FactorStudy

open Number

namespace Returns

/-! ## Bars ahead -/

section Ahead

variable {t : ℕ} {periods : UInt64}

theorem ahead_eq (t : ℕ) (periods : UInt64) :
    ahead t periods = (t + periods.toNat) % 2 ^ 64 := by
  rw [ahead, UInt64.toNat_add, Nat.toUInt64, UInt64.toNat_ofNat', Nat.mod_add_mod]

theorem ahead_of_lt (h : t + periods.toNat < 2 ^ 64) : ahead t periods = t + periods.toNat := by
  rw [ahead_eq, Nat.mod_eq_of_lt h]

/-- Where the sum wraps around, the bar ahead is an earlier one. -/
theorem ahead_lt_of_le (h : 2 ^ 64 ≤ t + periods.toNat) : ahead t periods < t := by
  have hword := periods.toNat_lt
  rw [ahead_eq]
  omega

/-- No sum wraps around while bars and horizon together are no more than there are words. -/
theorem ahead_of_fits {size : ℕ} (h : size + periods.toNat ≤ 2 ^ 64) (ht : t < size) :
    ahead t periods = t + periods.toNat := ahead_of_lt (by omega)

theorem checkedAhead?_eq (t : ℕ) (periods : UInt64) : checkedAhead? t periods =
    if t + periods.toNat < 2 ^ 64 then some (t + periods.toNat) else none := rfl

/-- Checking the sums makes no difference where none wraps around, and stops the program where one
does. The last bar has the greatest sum, so it decides. -/
theorem checkedForward?_eq {α : Type} [Number α] (close : List α) (periods : UInt64) :
    checkedForward? close periods =
      if close.length + periods.toNat ≤ 2 ^ 64 then some (forward close periods) else none := by
  split
  · rename_i hfits
    refine mapM_eq_some ?_
    rintro ⟨base, t⟩ hbar
    have ht : t < close.length := by
      have := List.snd_lt_add_of_mem_zipIdx hbar
      omega
    show (checkedAhead? t periods).map _ = some (changeTo close base (ahead t periods))
    rw [checkedAhead?_eq, if_pos (by omega), Option.map_some, ahead_of_fits hfits ht]
  · rename_i hover
    have hword := periods.toNat_lt
    -- the sum at the last bar passes the greatest word if any does
    have hlast : close.length - 1 < close.length := by omega
    have hbar : (close[close.length - 1], close.length - 1) ∈ close.zipIdx :=
      List.mem_zipIdx_iff_getElem?.mpr (List.getElem?_eq_getElem hlast)
    refine mapM_eq_none hbar ?_
    show (checkedAhead? (close.length - 1) periods).map _ = none
    rw [checkedAhead?_eq, if_neg (by omega), Option.map_none]

end Ahead

/-- A forward return is undefined or a change from one price to another. -/
theorem eq_nan_or_change_of_mem {α : Type} [Number α] {close : List α} {periods : UInt64} {r : α}
    (hr : r ∈ forward close periods) :
    r = nan ∨ ∃ base ∈ close, ∃ later ∈ close, r = Series.relativeChange later base := by
  obtain ⟨⟨base, t⟩, hbase, rfl⟩ := List.mem_map.mp hr
  have hmem : base ∈ close := List.mem_of_getElem? (List.mem_zipIdx_iff_getElem?.mp hbase)
  dsimp only [changeTo]
  split
  · rename_i later hlater
    exact Or.inr ⟨base, hmem, later, List.mem_of_getElem? hlater, rfl⟩
  · exact Or.inl rfl

end Returns

/-- The return of holding the symbol from bar `i` on for `periods` bars, where there is one: the
panel has the bar ahead, the price to start from is not 0, and the change is a finite number. -/
def Panel.forwardReturn? (p : Panel Float) (periods : UInt64) (i : ℕ) : Option Float := do
  let base ← p.bars[i]?
  let later ← p.bars[Returns.ahead i periods]?
  if base.close == 0 then none else finite? (later.close / base.close - 1)

/-- Both ends of a return are bars of the panel. -/
theorem Panel.lt_size_of_forwardReturn? {p : Panel Float} {periods : UInt64} {i : ℕ} {r : Float}
    (h : p.forwardReturn? periods i = some r) :
    i < p.size ∧ Returns.ahead i periods < p.size := by
  obtain ⟨base, hbase, h⟩ := Option.bind_eq_some_iff.mp h
  obtain ⟨later, hlater, -⟩ := Option.bind_eq_some_iff.mp h
  exact ⟨(List.getElem?_eq_some_iff.mp hbase).1, (List.getElem?_eq_some_iff.mp hlater).1⟩

theorem Panel.isFinite_of_forwardReturn? {p : Panel Float} {periods : UInt64} {i : ℕ} {r : Float}
    (h : p.forwardReturn? periods i = some r) : isFinite r = true := by
  obtain ⟨base, -, h⟩ := Option.bind_eq_some_iff.mp h
  obtain ⟨later, -, h⟩ := Option.bind_eq_some_iff.mp h
  split at h
  · cases h
  · exact (Double.finite?_eq_some_iff.mp h).2

/-- A relative change that is defined, as a number that may be missing. -/
theorem relativeChange_eq_iff {later base r : Float} :
    Series.relativeChange later base = r ∧ isNaN r = false ↔
      (if base == 0 then none else finite? (later / base - 1)) = some r := by
  unfold Series.relativeChange
  -- both say that a base of 0 has no change
  by_cases hbase : (base == 0) = true
  · rw [if_pos hbase, if_pos hbase]
    constructor
    · rintro ⟨rfl, hdef⟩
      cases hdef
    · intro h
      cases h
  · rw [if_neg hbase, if_neg hbase, Double.finite?_eq_some_iff]
    constructor
    · rintro ⟨rfl, hdef⟩
      have hfinite := Double.isFinite_of_isNaN_orNaN hdef
      rw [Double.orNaN_eq_self hfinite]
      exact ⟨rfl, hfinite⟩
    · rintro ⟨rfl, hfinite⟩
      exact ⟨Double.orNaN_eq_self hfinite, Double.isNaN_of_isFinite hfinite⟩

/-- The list of forward returns has the return of every bar that has one, and no other number. -/
theorem Returns.getElem?_forward {p : Panel Float} {periods : UInt64} {i : ℕ} {r : Float} :
    (forward (p.column .close) periods)[i]? = some r ∧ isNaN r = false ↔
      p.forwardReturn? periods i = some r := by
  have hundefined : nan = r ∧ isNaN r = false ↔ none = some r := by
    constructor
    · rintro ⟨rfl, hdef⟩
      cases hdef
    · intro h
      cases h
  unfold forward changeTo Panel.forwardReturn? Panel.column
  rw [List.getElem?_map, List.getElem?_zipIdx, List.getElem?_map, Nat.zero_add]
  -- past the panel there is no base, and then no return; then the same of the later bar
  cases p.bars[i]? with
  | none =>
    constructor
    · rintro ⟨h, -⟩
      cases h
    · intro h
      cases h
  | some base =>
    simp only [Option.map_some, Option.some.injEq, Option.bind_eq_bind, Option.bind_some,
      List.getElem?_map]
    cases p.bars[ahead i periods]? with
    | none => exact hundefined
    | some later => exact relativeChange_eq_iff

namespace FactorSeries

theorem get?_eq_some_iff {s : FactorSeries Float} {i : ℕ} {f : Float} :
    s.get? i = some f ↔ s.values[i]? = some f ∧ isNaN f = false := by
  rw [get?, Option.filter_eq_some_iff, Bool.not_eq_true']

end FactorSeries

namespace Backtest

/-! ## The points of a factor and its returns -/

section Aligned

variable {α : Type} [Number α] (factor forward : List α)

variable {factor forward} in
theorem mem_aligned_iff {i : ℕ} {f r : α} :
    (i, f, r) ∈ aligned factor forward ↔
      (factor[i]? = some f ∧ isNaN f = false) ∧ forward[i]? = some r ∧ isNaN r = false := by
  have hmem : (i, f, r) ∈ aligned factor forward ↔
      ((f, r), i) ∈ (factor.zip forward).zipIdx ∧ isNaN f = false ∧ isNaN r = false := by
    constructor
    · intro h
      obtain ⟨⟨⟨f', r'⟩, i'⟩, hpoint, heq⟩ := List.mem_map.mp h
      obtain ⟨hpoint, hdef⟩ := List.mem_filter.mp hpoint
      cases heq
      rw [Bool.and_eq_true, Bool.not_eq_true', Bool.not_eq_true'] at hdef
      exact ⟨hpoint, hdef⟩
    · rintro ⟨hpoint, hf, hr⟩
      refine List.mem_map.mpr ⟨((f, r), i), List.mem_filter.mpr ⟨hpoint, ?_⟩, rfl⟩
      rw [Bool.and_eq_true, Bool.not_eq_true', Bool.not_eq_true']
      exact ⟨hf, hr⟩
  rw [hmem, List.mem_zipIdx_iff_getElem?, List.getElem?_zip_eq_some]
  tauto

theorem pairwise_aligned : (aligned factor forward).Pairwise fun a b => a.1 < b.1 := by
  refine List.pairwise_map.mpr (List.Pairwise.filter _ ?_)
  have hplaces : ((factor.zip forward).zipIdx.map Prod.snd).Pairwise (· < ·) := by
    rw [List.zipIdx_map_snd, ← List.range_eq_range']
    exact List.pairwise_lt_range
  exact List.pairwise_map.mp hplaces

end Aligned

section Layered

variable {α : Type} [Number α] (factor : FactorSeries α) (panel : Panel α)
  (config : BacktestConfig α)

theorem length_assign_aligned :
    (Layers.assign ((aligned factor.values (Returns.forward (panel.column .close)
      config.periods)).map fun (_, f, _) => f) config.quantiles).length =
        (aligned factor.values (Returns.forward (panel.column .close) config.periods)).length := by
  rw [Layers.length_assign, List.length_map]

theorem map_point_observe :
    (observe factor panel config).map (fun o => (o.index, o.factor, o.forward)) =
      aligned factor.values (Returns.forward (panel.column .close) config.periods) := by
  rw [observe, List.map_zipWith, ← List.map_uncurry_zip_eq_zipWith]
  exact List.map_fst_zip (Nat.le_of_eq (length_assign_aligned factor panel config).symm)

theorem map_layer_aligned : (observe factor panel config).map (·.layer) =
    Layers.assign ((aligned factor.values (Returns.forward (panel.column .close)
      config.periods)).map fun (_, f, _) => f) config.quantiles := by
  rw [observe, List.map_zipWith, ← List.map_uncurry_zip_eq_zipWith]
  exact List.map_snd_zip (Nat.le_of_eq (length_assign_aligned factor panel config))

/-- The factor of the observations settles their layers. -/
theorem map_layer_eq_assign : (observe factor panel config).map (·.layer) =
    Layers.assign ((observe factor panel config).map (·.factor)) config.quantiles := by
  rw [map_layer_aligned, ← map_point_observe, List.map_map]
  rfl

variable {factor panel config} in
theorem mem_aligned_of_mem_observe {o : Observation α} (ho : o ∈ observe factor panel config) :
    (o.index, o.factor, o.forward) ∈
      aligned factor.values (Returns.forward (panel.column .close) config.periods) := by
  rw [← map_point_observe]
  exact List.mem_map_of_mem (f := fun o : Observation α => (o.index, o.factor, o.forward)) ho

end Layered

/-- A configuration has layers for two legs. -/
theorem one_lt_quantiles {α : Type} (config : BacktestConfig α) : 1 < config.quantiles := by
  have h := config.quantiles_mem
  simp only [quantileChoices, List.mem_cons, List.not_mem_nil, or_false] at h
  omega

/-! ## The observations -/

section Observe

variable (factor : FactorSeries Float) (panel : Panel Float) (config : BacktestConfig Float)

/-- The points that are observed, without their layers. -/
def points : List (ℕ × Float × Float) :=
  aligned factor.values (Returns.forward (panel.column .close) config.periods)

theorem observe_eq_zipWith : observe factor panel config =
    (points factor panel config).zipWith (fun (i, f, r) layer => ⟨i, f, r, layer⟩)
      (Layers.assign ((points factor panel config).map fun (_, f, _) => f) config.quantiles) := rfl

theorem length_layers :
    (Layers.assign ((points factor panel config).map fun (_, f, _) => f) config.quantiles).length =
      (points factor panel config).length :=
  length_assign_aligned factor panel config

/-- Every point is observed. -/
theorem map_observe :
    (observe factor panel config).map (fun o => (o.index, o.factor, o.forward)) =
      points factor panel config :=
  map_point_observe factor panel config

/-- Every observation gets its layer. -/
theorem map_layer_observe : (observe factor panel config).map (·.layer) =
    Layers.assign ((points factor panel config).map fun (_, f, _) => f) config.quantiles :=
  map_layer_aligned factor panel config

/-- What the observations of a factor on a panel are. The last three statements tell apart the
horizons for which bar and horizon always add up to a machine word from those that are too long. -/
structure Observes (observations : List (Observation Float)) : Prop where
  /-- They are at the bars at which the factor and the forward return are both defined. -/
  mem_iff : ∀ i f r, (∃ o ∈ observations, o.index = i ∧ o.factor = f ∧ o.forward = r) ↔
    factor.get? i = some f ∧ panel.forwardReturn? config.periods i = some r
  /-- Each bar is observed once, and they are in order. -/
  increasing : observations.Pairwise fun a b => a.index < b.index
  /-- There is a layer for each. -/
  layered : ∀ o ∈ observations, o.layer < config.quantiles
  /-- The return of an observation begins and ends at bars of the panel. -/
  inside : ∀ o ∈ observations,
    o.index < panel.size ∧ Returns.ahead o.index config.periods < panel.size
  /-- It is over before the panel ends, or else it leads back to an earlier bar. -/
  direction : ∀ o ∈ observations, o.index + config.periods.toNat < panel.size ∨
    Returns.ahead o.index config.periods < o.index
  /-- No return leads back while bars and horizon together are no more than there are words. -/
  onward : panel.size + config.periods.toNat ≤ 2 ^ 64 → ∀ o ∈ observations,
    o.index + config.periods.toNat < panel.size
  /-- Exactly then a build that checks its sums gets to the observations at all, and they are these
  ones. -/
  checked : Returns.checkedForward? (panel.column .close) config.periods =
    if panel.size + config.periods.toNat ≤ 2 ^ 64 then
      some (Returns.forward (panel.column .close) config.periods)
    else none

variable {factor panel config} in
theorem Observes.isFinite_forward {observations : List (Observation Float)}
    (h : Observes factor panel config observations) {o : Observation Float}
    (ho : o ∈ observations) : isFinite o.forward = true :=
  Panel.isFinite_of_forwardReturn? ((h.mem_iff _ _ _).mp ⟨o, ho, rfl, rfl, rfl⟩).2

theorem observes_observe : Observes factor panel config (observe factor panel config) := by
  have hmem : ∀ i f r,
      (∃ o ∈ observe factor panel config, o.index = i ∧ o.factor = f ∧ o.forward = r) ↔
        factor.get? i = some f ∧ panel.forwardReturn? config.periods i = some r := by
    intro i f r
    have hpoint : (∃ o ∈ observe factor panel config, o.index = i ∧ o.factor = f ∧ o.forward = r) ↔
        (i, f, r) ∈ points factor panel config := by
      rw [← map_observe, List.mem_map]
      simp only [Prod.mk.injEq]
    rw [hpoint, points, mem_aligned_iff, FactorSeries.get?_eq_some_iff, Returns.getElem?_forward]
  have hinside : ∀ o ∈ observe factor panel config,
      o.index < panel.size ∧ Returns.ahead o.index config.periods < panel.size := fun o ho =>
    Panel.lt_size_of_forwardReturn? ((hmem _ _ _).mp ⟨o, ho, rfl, rfl, rfl⟩).2
  refine ⟨hmem, ?_, ?_, hinside, ?_, ?_, ?_⟩
  · have hincreasing := pairwise_aligned factor.values
      (Returns.forward (panel.column .close) config.periods)
    rw [← points, ← map_observe] at hincreasing
    have hindices := List.pairwise_map.mp hincreasing
    exact hindices
  · intro o ho
    have hquantiles := one_lt_quantiles config
    have hlayer : o.layer ∈ (observe factor panel config).map (·.layer) := List.mem_map_of_mem ho
    rw [map_layer_observe] at hlayer
    exact Layers.lt_of_mem_assign (by omega) hlayer
  · -- an end inside the panel is the sum itself, unless the sum has wrapped around
    intro o ho
    have hend := (hinside o ho).2
    rcases Nat.lt_or_ge (o.index + config.periods.toNat) (2 ^ 64) with hword | hwraps
    · rw [Returns.ahead_of_lt hword] at hend
      exact Or.inl hend
    · exact Or.inr (Returns.ahead_lt_of_le hwraps)
  · intro hfits o ho
    obtain ⟨hbegin, hend⟩ := hinside o ho
    rwa [Returns.ahead_of_fits hfits hbegin] at hend
  · have hsize : (panel.column .close).length = panel.size := List.length_map _
    rw [Returns.checkedForward?_eq, hsize]

end Observe

end Backtest

end FactorStudy
