import FactorStudy.Proofs.Evaluation.Accepted

/-!
# Finite memory

A panel is often cut to the dates of interest before a factor is computed, and its values are then
compared with those on the full panel. They agree as soon as there is enough history: an expression
without functions of the whole series looks back a fixed number of bars, its `span`, and from there
on it does not matter what stood before the cut.

`AgreesFrom d s x y` relates two runs. It says that `y`, which starts `d` bars after `x`, goes along
with `x` from its bar `s` on; what came before may differ. Functions that go bar by bar keep `s`. A
shift adds its window to it and a statistic adds its window less one, because the newest bar of a
window is the bar itself. A replaced value (`fillna`) needs nothing more, since whether a value is
missing is itself something that both runs agree on.
-/

namespace FactorStudy

open Series

variable {α : Type}

namespace Series

/-- From its bar `s` on, `y` has the values that `x` has `d` bars later. -/
def AgreesFrom (d s : ℕ) (x y : List α) : Prop := ∀ j, s ≤ j → y[j]? = x[d + j]?

theorem agreesFrom_drop (d : ℕ) (x : List α) : AgreesFrom d 0 x (x.drop d) := by
  intro j _
  exact List.getElem?_drop

namespace AgreesFrom

variable {d s : ℕ} {x y x' y' : List α}

theorem mono {t : ℕ} (h : AgreesFrom d s x y) (hst : s ≤ t) : AgreesFrom d t x y := by
  intro j hj
  exact h j (Nat.le_trans hst hj)

/-- The two runs end at the same bar. -/
theorem lt_length_iff (h : AgreesFrom d s x y) {j : ℕ} (hj : s ≤ j) :
    j < y.length ↔ d + j < x.length := by
  have hnone : y.length ≤ j ↔ x.length ≤ d + j := by
    rw [← List.getElem?_eq_none_iff, h j hj, List.getElem?_eq_none_iff]
  omega

theorem getD (h : AgreesFrom d s x y) {j : ℕ} (hj : s ≤ j) (v : α) : y.getD j v = x.getD (d + j) v := by
  rw [List.getD_eq_getElem?_getD, List.getD_eq_getElem?_getD, h j hj]

theorem map (h : AgreesFrom d s x y) (g : α → α) : AgreesFrom d s (x.map g) (y.map g) := by
  intro j hj
  rw [List.getElem?_map, List.getElem?_map, h j hj]

theorem zipWith (h : AgreesFrom d s x y) (h' : AgreesFrom d s x' y') (g : α → α → α) :
    AgreesFrom d s (x.zipWith g x') (y.zipWith g y') := by
  intro j hj
  rw [List.getElem?_zipWith, List.getElem?_zipWith, h j hj, h' j hj]

/-- Two runs that are given bar by bar. -/
theorem map_range {g g' : ℕ → α} {m m' : ℕ} (hlen : ∀ j, s ≤ j → (j < m' ↔ d + j < m))
    (hg : ∀ j, s ≤ j → g' j = g (d + j)) :
    AgreesFrom d s ((List.range m).map g) ((List.range m').map g') := by
  intro j hj
  rw [List.getElem?_map, List.getElem?_map]
  by_cases hlt : j < m'
  · rw [List.getElem?_range hlt, List.getElem?_range ((hlen j hj).mp hlt), Option.map_some,
      Option.map_some, hg j hj]
  · have hge : ¬ d + j < m := fun h => hlt ((hlen j hj).mpr h)
    rw [List.getElem?_eq_none (by rw [List.length_range]; omega),
      List.getElem?_eq_none (by rw [List.length_range]; omega)]
    rfl

/-- A window whose first bar the runs agree on is the same window. -/
theorem trailing? (h : AgreesFrom d s x y) {n j : ℕ} (hj : n - 1 + s ≤ j) :
    Series.trailing? y n j = Series.trailing? x n (d + j) := by
  unfold Series.trailing?
  by_cases hn : 1 ≤ n
  · rw [if_pos (by omega), if_pos (by omega)]
    congr 1
    refine List.ext_getElem? fun i => ?_
    by_cases hi : i < n
    · rw [List.getElem?_take_of_lt hi, List.getElem?_take_of_lt hi, List.getElem?_drop,
        List.getElem?_drop, h _ (by omega), show d + (j + 1 - n + i) = d + j + 1 - n + i by omega]
    · rw [List.getElem?_take_eq_none (by omega), List.getElem?_take_eq_none (by omega)]
  · -- an empty window is no window, in either run
    rw [if_neg (by omega), if_neg (by omega)]

variable [Number α]

theorem rolling (h : AgreesFrom d s x y) (f : List α → α) (n : ℕ) :
    AgreesFrom d (n - 1 + s) (Series.rolling f x n) (Series.rolling f y n) := by
  refine map_range ?_ ?_
  · intro j hj
    exact h.lt_length_iff (by omega)
  · intro j hj
    rw [h.trailing? hj]

theorem rollingPair (h : AgreesFrom d s x y) (h' : AgreesFrom d s x' y') (f : List α → List α → α)
    (n : ℕ) : AgreesFrom d (n - 1 + s) (Series.rollingPair f x x' n) (Series.rollingPair f y y' n) := by
  refine map_range ?_ ?_
  · intro j hj
    rw [Nat.lt_min, Nat.lt_min, h.lt_length_iff (by omega), h'.lt_length_iff (by omega)]
  · intro j hj
    rw [h.trailing? hj, h'.trailing? hj]

theorem delay (h : AgreesFrom d s x y) (n : ℕ) :
    AgreesFrom d (n + s) (Series.delay x n) (Series.delay y n) := by
  refine map_range ?_ ?_
  · intro j hj
    exact h.lt_length_iff (by omega)
  · intro j hj
    rw [if_pos (by omega), if_pos (by omega), h.getD (by omega),
      show d + (j - n) = d + j - n by omega]

/-- Comparing each bar with the one `n` bars ago. -/
theorem zipWith_delay (h : AgreesFrom d s x y) (g : α → α → α) (n : ℕ) :
    AgreesFrom d (n + s) (x.zipWith g (Series.delay x n)) (y.zipWith g (Series.delay y n)) :=
  (h.mono (Nat.le_add_left s n)).zipWith (h.delay n) g

end AgreesFrom

end Series

/-! ## The function library -/

namespace Builtin

/-- How many bars before the current one a function with window `n` looks at. -/
def lookBack : Builtin → ℕ → ℕ
  | shift _, n => n
  | rolling _, n | pairwise _, n => n - 1
  | transform _, _ | pointwise _, _ | merge _, _ => 0

/-- **One call.** A function needs as much more history as it looks back. -/
theorem agreesFrom_apply [Number α] {f : Builtin} (hf : ∀ t, f ≠ .transform t) {xs ys : List (List α)}
    {d s : ℕ} (h : ∀ k, AgreesFrom d s (xs.getD k []) (ys.getD k [])) (n : ℕ) :
    AgreesFrom d (f.lookBack n + s) (f.apply xs n) (f.apply ys n) := by
  cases f with
  | shift f =>
    cases f with
    | delay => exact (h 0).delay n
    | delta => exact (h 0).zipWith_delay _ n
    | returns => exact (h 0).zipWith_delay _ n
    | pctChange => exact (h 0).zipWith_delay _ n
  | rolling f => exact (h 0).rolling f.statistic n
  | pairwise f => exact (h 0).rollingPair (h 1) f.statistic n
  -- a function of the whole series sees everything that was cut off
  | transform t => exact absurd rfl (hf t)
  | pointwise f => exact ((h 0).map _).mono (Nat.le_add_left s 0)
  | merge f =>
    have hzip : ∀ g : α → α → α, AgreesFrom d (0 + s) ((xs.getD 0 []).zipWith g (xs.getD 1 []))
        ((ys.getD 0 []).zipWith g (ys.getD 1 [])) :=
      fun g => ((h 0).zipWith (h 1) g).mono (Nat.le_add_left s 0)
    cases f with
    | max => exact hzip _
    | min => exact hzip _
    | fillna => exact hzip _

end Builtin

/-! ## Expressions -/

/-- The bars behind the first `d`. -/
def Panel.drop (p : Panel α) (d : ℕ) : Panel α :=
  { p with
    bars := p.bars.drop d
    increasing := p.increasing.sublist (List.drop_sublist d p.bars) }

theorem Panel.size_drop (p : Panel α) (d : ℕ) : (p.drop d).size = p.size - d := List.length_drop

theorem Panel.column_drop (p : Panel α) (d : ℕ) (c : Column) :
    (p.drop d).column c = (p.column c).drop d := List.map_drop

namespace Expr

mutual

/-- How many bars before the current one an expression looks at. -/
def span : Expr → ℕ
  | literal _ | column _ => 0
  | neg e => e.span
  | binary _ l r => max l.span r.span
  | call f args =>
    f.lookBack (windowLength f args) + ((spanAll args).take f.seriesArity).max?.getD 0

/-- The spans of a list of expressions. -/
def spanAll : List Expr → List ℕ
  | [] => []
  | e :: es => e.span :: spanAll es

end

theorem spanAll_eq_map (es : List Expr) : spanAll es = es.map span := by
  induction es with
  | nil => rfl
  | cons e es ih => rw [spanAll, ih, List.map_cons]

/-- A call looks back from the longest span among its series. -/
theorem span_call (f : Builtin) (args : List Expr) :
    (call f args).span =
      f.lookBack (windowLength f args) + ((args.take f.seriesArity).map span).max?.getD 0 := by
  rw [span, spanAll_eq_map, List.map_take]

/-- **All calls.** After `span` bars a run on the later bars agrees with the run on all of them. -/
theorem agreesFrom_eval (p : Panel Float) (d : ℕ) {e : Expr} (h : ∀ t, Builtin.transform t ∉ e.calls) :
    AgreesFrom d e.span (e.eval p) (e.eval (p.drop d)) := by
  induction e using Expr.induction with
  | literal v =>
    have hdrop := agreesFrom_drop d (List.replicate p.size v)
    rw [List.drop_replicate, ← Panel.size_drop] at hdrop
    rw [eval, eval]
    exact hdrop.map _
  | column c =>
    have hdrop := agreesFrom_drop d (p.column c)
    rw [← Panel.column_drop] at hdrop
    rw [eval, eval]
    exact hdrop.map _
  | neg e ih =>
    rw [eval, eval]
    exact (ih h).map _
  | binary op l r ihl ihr =>
    have hl : ∀ t, Builtin.transform t ∉ l.calls := fun t ht => h t (List.mem_append_left _ ht)
    have hr : ∀ t, Builtin.transform t ∉ r.calls := fun t ht => h t (List.mem_append_right _ ht)
    rw [eval, eval, span]
    exact ((ihl hl).mono (Nat.le_max_left _ _)).zipWith ((ihr hr).mono (Nat.le_max_right _ _)) _
  | call f args ih =>
    have hf : ∀ t, f ≠ .transform t := fun t ht => h t (ht ▸ List.mem_cons_self)
    rw [eval_call, eval_call, span_call]
    refine Builtin.agreesFrom_apply hf ?_ _
    intro k
    rw [List.getD_eq_getElem?_getD, List.getD_eq_getElem?_getD, List.getElem?_map, List.getElem?_map]
    cases hk : (args.take f.seriesArity)[k]? with
    | none =>
      -- an argument that is not there is an empty series in both runs
      intro j _
      rfl
    | some a =>
      have ha := List.mem_of_getElem? hk
      have hargs : ∀ t, Builtin.transform t ∉ a.calls := by
        intro t ht
        exact h t (List.mem_cons_of_mem _ (mem_callsAll.mpr ⟨a, List.mem_of_mem_take ha, ht⟩))
      refine (ih a (List.mem_of_mem_take ha) hargs).mono ?_
      exact List.le_max?_getD_of_mem (List.mem_map_of_mem ha)

/-- **Finite memory.** On a panel without its first `d` bars, an expression without functions of the
whole series has, once it has seen `span` bars, the values that it has at the same bars of the full
panel.

The span is computed over the tree: a window adds one bar less than its length to the span of what
it is applied to, and a shift adds its length. Past it, every window holds the same values in both
panels. -/
theorem evaluate_finite_memory {text : String} {e : Expr} (hcheck : check text = .ok e)
    (hlocal : ∀ t, Builtin.transform t ∉ e.calls) (p : Panel Float) (d : ℕ) :
    ∃ whole rest, e.evaluate .lenient p = .ok whole ∧ e.evaluate .lenient (p.drop d) = .ok rest ∧
      ∀ j, e.span ≤ j → d + j < p.size →
        ∃ v, rest.values[j]? = some v ∧ whole.values[d + j]? = some v := by
  have hwin := (check_eq_ok_iff.mp hcheck).2
  refine ⟨_, _, evaluate_lenient hwin p, evaluate_lenient hwin (p.drop d), ?_⟩
  intro j hj hlt
  have hagree : AgreesFrom d e.span (clean (e.eval p)) (clean (e.eval (p.drop d))) :=
    (agreesFrom_eval p d hlocal).map _
  have hlen : d + j < (clean (e.eval p)).length := by
    rwa [clean, List.length_map, (accepted_of_check hcheck).length_eval p]
  refine ⟨(clean (e.eval p))[d + j], ?_, List.getElem?_eq_getElem hlen⟩
  exact (hagree j hj).trans (List.getElem?_eq_getElem hlen)

/-- A change over a day, and the day's volume where there is none. -/
def filledChange : Expr :=
  .call (.merge .fillna) [.call (.shift .returns) [.column .close, .literal 1], .column .volume]

/-- Without the first of three days it starts with a volume, and has the same change as on all three
after one bar. -/
theorem evaluate_finite_memory_filledChange :
    check "fillna(ts_returns(close, 1), volume)" = .ok filledChange ∧
      (∀ t, Builtin.transform t ∉ filledChange.calls) ∧ filledChange.span = 1 ∧
      ∃ whole rest, filledChange.evaluate .lenient threeDays = .ok whole ∧
        filledChange.evaluate .lenient (threeDays.drop 1) = .ok rest ∧
        rest.values[0]? ≠ whole.values[1]? ∧
        ∀ j, filledChange.span ≤ j → 1 + j < threeDays.size →
          ∃ v, rest.values[j]? = some v ∧ whole.values[1 + j]? = some v := by
  have hcheck : check "fillna(ts_returns(close, 1), volume)" = .ok filledChange := by
    have hrender : filledChange.render = "fillna(ts_returns(close, 1), volume)" := by
      decide +kernel
    rw [← hrender]
    exact check_render (by decide +kernel) (by decide +kernel) (by decide +kernel) rfl
  have hlocal : ∀ t, Builtin.transform t ∉ filledChange.calls := by
    intro t
    simp [filledChange, calls, callsAll]
  have hwin := (check_eq_ok_iff.mp hcheck).2
  have hdiffer : (FactorSeries.ofValues (filledChange.eval (threeDays.drop 1))).values[0]? ≠
      (FactorSeries.ofValues (filledChange.eval threeDays)).values[1]? := by
    decide +kernel
  obtain ⟨whole, rest, hwhole, hrest, hagree⟩ := evaluate_finite_memory hcheck hlocal threeDays 1
  rw [evaluate_lenient hwin] at hwhole hrest
  cases hwhole
  cases hrest
  exact ⟨hcheck, hlocal, by decide +kernel, _, _, evaluate_lenient hwin threeDays,
    evaluate_lenient hwin (threeDays.drop 1), hdiffer, hagree⟩

end Expr

end FactorStudy
