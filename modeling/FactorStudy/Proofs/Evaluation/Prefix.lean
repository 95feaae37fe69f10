import FactorStudy.Double
import FactorStudy.Expr.Eval

/-!
# No look-ahead

A factor is used to decide at a bar what to hold after it, so its value there must not know the
bars to come. Of the built-in functions only those of the series as a whole break this; all others
look at the bar itself, at a bar before it or at a window that ends with it.

`Causal` says it of a function on series: cutting the argument after `k` bars cuts the result after
`k` bars and changes nothing before the cut. Functions that go bar by bar are causal because `map`
and `zipWith` are; functions that address bars by position are causal because the position they
read is never beyond the one they compute (`trailing?_take`). Evaluation inherits it from the
functions that an expression calls, by one induction on the tree.
-/

namespace FactorStudy

open Series

variable {α : Type}

namespace Series

/-- Cutting the series after `k` bars cuts the result and leaves its beginning as it was. -/
def Causal (f : List α → List α) : Prop := ∀ x k, f (x.take k) = (f x).take k

/-- The same for a function of two series, cut after the same bar. -/
def Causal₂ (f : List α → List α → List α) : Prop :=
  ∀ x y k, f (x.take k) (y.take k) = (f x y).take k

theorem causal₂_zipWith (g : α → α → α) : Causal₂ (List.zipWith g) :=
  fun _ _ _ => List.take_zipWith.symm

/-! ## Functions that address bars by position -/

theorem take_map_range (g : Nat → α) (m k : Nat) :
    ((List.range m).map g).take k = (List.range (min k m)).map g := by
  rw [← List.map_take, List.take_range]

/-- A function given bar by bar is causal when the value at a bar is the same on every cut behind
that bar. -/
theorem causal_of_index {g : List α → Nat → α}
    (hg : ∀ x k i, i < k → g (x.take k) i = g x i) :
    Causal fun x => (List.range x.length).map (g x) := by
  intro x k
  show (List.range (x.take k).length).map (g (x.take k)) = _
  rw [take_map_range, List.length_take]
  refine List.map_congr_left fun i hi => hg x k i ?_
  have := List.mem_range.mp hi
  omega

/-- A window that ends before the cut does not notice it. -/
theorem trailing?_take (x : List α) (n : Nat) {i k : Nat} (hi : i < k) :
    trailing? (x.take k) n i = trailing? x n i := by
  unfold trailing?
  split
  · rename_i h
    have hcut : min n (k - (i + 1 - n)) = n := by omega
    rw [List.drop_take, List.take_take, hcut]
  · rfl

theorem length_of_trailing? {x w : List α} {n i : Nat} (hw : trailing? x n i = some w)
    (hi : i < x.length) : w.length = n := by
  unfold trailing? at hw
  split at hw
  · cases hw
    rw [List.length_take, List.length_drop]
    omega
  · cases hw

theorem trailing?_map {β : Type} (k : α → β) (x : List α) (n i : Nat) :
    trailing? (x.map k) n i = (trailing? x n i).map (List.map k) := by
  unfold trailing?
  split
  · rw [Option.map_some, List.map_take, List.map_drop]
  · rfl

theorem mem_of_mem_trailing? {x w : List α} {n i : Nat} (hw : trailing? x n i = some w) {v : α}
    (hv : v ∈ w) : v ∈ x := by
  unfold trailing? at hw
  split at hw
  · cases hw
    exact List.mem_of_mem_drop (List.mem_of_mem_take hv)
  · cases hw

/-- A complete window ends within the series. -/
theorem lt_of_trailing? {x w : List α} {n i : Nat} (hw : trailing? x n i = some w)
    (hlen : w.length = n) : i < x.length := by
  unfold trailing? at hw
  split at hw
  · cases hw
    rw [List.length_take, List.length_drop] at hlen
    omega
  · cases hw

variable [Number α]

/-- The value of a statistic at a bar, if its window is complete. -/
theorem getElem?_rolling_of_lt (f : List α → α) {x : List α} {n i : Nat} (hi : i < x.length) :
    (rolling f x n)[i]? = some (((trailing? x n i).map (onWindow f)).getD Number.nan) := by
  rw [rolling, List.getElem?_map, List.getElem?_range hi, Option.map_some]

/-- The value of a statistic at the last bar of a complete window. -/
theorem getElem?_rolling (f : List α → α) {x w : List α} {n i : Nat}
    (hw : trailing? x n i = some w) (hi : i < x.length) :
    (rolling f x n)[i]? = some (onWindow f w) := by
  rw [getElem?_rolling_of_lt f hi, hw, Option.map_some, Option.getD_some]

theorem causal_map (g : α → α) : Causal (Series.map g) := fun _ _ => List.map_take

theorem causal_rolling (f : List α → α) (n : Nat) : Causal fun x => rolling f x n := by
  refine causal_of_index (g := fun x i => ((trailing? x n i).map (onWindow f)).getD Number.nan) ?_
  intro x k i hi
  simp only [trailing?_take x n hi]

theorem causal₂_rollingPair (f : List α → List α → α) (n : Nat) :
    Causal₂ fun x y => rollingPair f x y n := by
  intro x y k
  simp only [rollingPair]
  -- the shorter series gives the length, before the cut and after it
  have hlen : min (min k x.length) (min k y.length) = min k (min x.length y.length) := by omega
  rw [take_map_range, List.length_take, List.length_take, hlen]
  refine List.map_congr_left fun i hi => ?_
  have hik : i < k := by
    have := List.mem_range.mp hi
    omega
  rw [trailing?_take x n hik, trailing?_take y n hik]

theorem causal_delay (n : Nat) : Causal fun x : List α => delay x n := by
  refine causal_of_index (g := fun x i => if n ≤ i then x.getD (i - n) Number.nan else Number.nan) ?_
  intro x k i hi
  -- a delay looks back, so the bar it reads lies before the cut too
  have hback : i - n < k := by omega
  simp only [List.getD_eq_getElem?_getD, List.getElem?_take_of_lt hback]

/-- Comparing each bar with the one `n` bars ago. -/
theorem causal_zipWith_delay (g : α → α → α) (n : Nat) :
    Causal fun x => x.zipWith g (delay x n) := by
  intro x k
  have hdelay : delay (x.take k) n = (delay x n).take k := causal_delay n x k
  show List.zipWith g (x.take k) (delay (x.take k) n) = _
  rw [hdelay]
  exact causal₂_zipWith g x (delay x n) k

end Series

/-! ## The function library -/

theorem getD_map_take (series : List (List α)) (j k : Nat) :
    (series.map (·.take k)).getD j [] = (series.getD j []).take k := by
  rw [List.getD_eq_getElem?_getD, List.getD_eq_getElem?_getD, List.getElem?_map]
  cases series[j]? <;> simp

variable [Number α]

theorem Shift.causal_apply (f : Shift) (n : Nat) : Causal fun x : List α => f.apply x n := by
  cases f with
  | delay => exact causal_delay n
  | delta => exact causal_zipWith_delay _ n
  | returns => exact causal_zipWith_delay _ n
  | pctChange => exact causal_zipWith_delay _ n

theorem Merge.causal₂_apply (f : Merge) : Causal₂ (f.apply (α := α)) := by
  cases f with
  | max => exact causal₂_zipWith _
  | min => exact causal₂_zipWith _
  | fillna => exact causal₂_zipWith _

/-- Every function but those of the whole series. -/
theorem Builtin.apply_take {f : Builtin} (hf : ∀ t, f ≠ .transform t) (series : List (List α))
    (n k : Nat) : f.apply (series.map (·.take k)) n = (f.apply series n).take k := by
  simp only [Builtin.apply, getD_map_take]
  cases f with
  | shift f => exact f.causal_apply n _ k
  | rolling f => exact causal_rolling f.statistic n _ k
  | pairwise f => exact causal₂_rollingPair f.statistic n _ _ k
  -- a function of the whole series sees the cut
  | transform t => exact absurd rfl (hf t)
  | pointwise f => exact causal_map f.function _ k
  | merge f => exact f.causal₂_apply _ _ k

/-! ## Expressions -/

namespace Expr

mutual

/-- Every function that an expression calls. -/
def calls : Expr → List Builtin
  | literal _ | column _ => []
  | neg e => e.calls
  | binary _ l r => l.calls ++ r.calls
  | call f args => f :: callsAll args

/-- The functions called in a list of expressions. -/
def callsAll : List Expr → List Builtin
  | [] => []
  | e :: es => e.calls ++ callsAll es

end

end Expr

/-- The first `k` bars. -/
def Panel.take {α : Type} (p : Panel α) (k : Nat) : Panel α :=
  { p with
    bars := p.bars.take k
    increasing := p.increasing.sublist (List.take_sublist k p.bars) }

@[simp] theorem Panel.size_take {α : Type} (p : Panel α) (k : Nat) :
    (p.take k).size = min k p.size := List.length_take

@[simp] theorem Panel.column_take {α : Type} (p : Panel α) (k : Nat) (c : Column) :
    (p.take k).column c = (p.column c).take k := List.map_take

namespace Expr

mutual

/-- A tree that calls no function of the whole series is evaluated on the first `k` bars to the
first `k` values. -/
theorem eval_take (p : Panel Float) (k : Nat) :
    ∀ e : Expr, (∀ t, Builtin.transform t ∉ e.calls) → e.eval (p.take k) = (e.eval p).take k
  | literal v, _ => by
      rw [eval, eval, Panel.size_take, Series.clean, Series.clean, ← List.map_take,
        List.take_replicate]
  | column c, _ => by
      rw [eval, eval, Panel.column_take, Series.clean, Series.clean, List.map_take]
  | neg e, h => by
      rw [eval, eval, eval_take p k e h]
      exact causal_map _ _ k
  | binary op l r, h => by
      have hl : ∀ t, Builtin.transform t ∉ l.calls :=
        fun t ht => h t (List.mem_append_left _ ht)
      have hr : ∀ t, Builtin.transform t ∉ r.calls :=
        fun t ht => h t (List.mem_append_right _ ht)
      rw [eval, eval, eval_take p k l hl, eval_take p k r hr]
      exact causal₂_zipWith _ _ _ k
  -- with the functions of the whole series excluded, every function only looks back
  | call f args, h => by
      have hf : ∀ t, f ≠ .transform t := fun t ht => h t (ht ▸ List.mem_cons_self)
      have hargs : ∀ t, Builtin.transform t ∉ callsAll args :=
        fun t ht => h t (List.mem_cons_of_mem _ ht)
      rw [eval, eval, evalAll_take p k args hargs, ← List.map_take]
      exact Builtin.apply_take hf _ _ k

/-- The same for each argument of a call. -/
theorem evalAll_take (p : Panel Float) (k : Nat) :
    ∀ es : List Expr, (∀ t, Builtin.transform t ∉ callsAll es) →
      evalAll (p.take k) es = (evalAll p es).map (·.take k)
  | [], _ => rfl
  | e :: es, h => by
      have he : ∀ t, Builtin.transform t ∉ e.calls :=
        fun t ht => h t (List.mem_append_left _ ht)
      have hes : ∀ t, Builtin.transform t ∉ callsAll es :=
        fun t ht => h t (List.mem_append_right _ ht)
      rw [evalAll, evalAll, eval_take p k e he, evalAll_take p k es hes, List.map_cons]

end

/-- Acceptable windows are all that a lenient evaluation asks for. -/
theorem evaluate_lenient {e : Expr} (hwin : e.checkWindows = .ok ()) (p : Panel Float) :
    e.evaluate .lenient p = .ok (.ofValues (e.eval p)) := by
  rw [evaluate, hwin]
  rfl

/-- **No look-ahead.** On the first `k` bars of a panel, an expression without functions of the
whole series gives the first `k` values it gives on all the bars. So its value at a bar is the same
on every two panels that agree up to that bar.

The induction is over the tree (`eval_take`): columns and literals are cut as the panel is,
operators work bar by bar, and every other function reads a window that ends at the bar it is for.
-/
theorem evaluate_no_look_ahead {e : Expr} (hwin : e.checkWindows = .ok ())
    (hlocal : ∀ t, Builtin.transform t ∉ e.calls) (p : Panel Float) :
    ∃ whole, e.evaluate .lenient p = .ok whole ∧
      (∀ k, ∃ start, e.evaluate .lenient (p.take k) = .ok start ∧
        start.values = whole.values.take k) ∧
      ∀ (q : Panel Float) (i : Nat), q.take (i + 1) = p.take (i + 1) →
        ∃ other, e.evaluate .lenient q = .ok other ∧ other.values[i]? = whole.values[i]? := by
  have hcut : ∀ (q : Panel Float) (k : Nat), (FactorSeries.ofValues (e.eval (q.take k))).values
      = (FactorSeries.ofValues (e.eval q)).values.take k := by
    intro q k
    show Series.clean _ = (Series.clean _).take k
    rw [eval_take q k e hlocal, Series.clean, Series.clean, List.map_take]
  refine ⟨_, evaluate_lenient hwin p, fun k => ⟨_, evaluate_lenient hwin _, hcut p k⟩, ?_⟩
  -- both panels are cut behind bar `i`, where they are the same panel
  intro q i hq
  refine ⟨_, evaluate_lenient hwin q, ?_⟩
  rw [← List.getElem?_take_of_lt (Nat.lt_succ_self i), ← hcut q, hq, hcut p,
    List.getElem?_take_of_lt (Nat.lt_succ_self i)]

/-- A relative change of a smoothed close, filled where it is undefined. -/
def smoothedChange : Expr :=
  .call (.merge .fillna)
    [.call (.shift .returns) [.call (.rolling .mean) [.column .close, .literal 2], .literal 1],
      .neg (.column .volume)]

/-- Three days of prices. -/
def threeDays : Panel Float where
  symbol := "TEST"
  interval := .daily
  bars := [⟨.midnight ⟨2024, 1, 1, by decide, by decide, by decide⟩, 9, 11, 8, 10, 100⟩,
    ⟨.midnight ⟨2024, 1, 2, by decide, by decide, by decide⟩, 10, 13, 9, 12, 100⟩,
    ⟨.midnight ⟨2024, 1, 3, by decide, by decide, by decide⟩, 12, 12, 10, 11, 100⟩]
  increasing := @increasing_of_disorder?_eq_none _ _ 0 (by decide)

theorem evaluate_no_look_ahead_smoothedChange :
    smoothedChange.checkWindows = .ok () ∧ (∀ t, Builtin.transform t ∉ smoothedChange.calls) ∧
      ∃ whole, smoothedChange.evaluate .lenient threeDays = .ok whole ∧
        (∀ k, ∃ start, smoothedChange.evaluate .lenient (threeDays.take k) = .ok start ∧
          start.values = whole.values.take k) ∧
        ∀ (q : Panel Float) (i : Nat), q.take (i + 1) = threeDays.take (i + 1) →
          ∃ other, smoothedChange.evaluate .lenient q = .ok other ∧
            other.values[i]? = whole.values[i]? := by
  have hwin : smoothedChange.checkWindows = .ok () := rfl
  have hlocal : ∀ t, Builtin.transform t ∉ smoothedChange.calls := by
    intro t
    simp [smoothedChange, calls, callsAll]
  exact ⟨hwin, hlocal, evaluate_no_look_ahead hwin hlocal threeDays⟩

end Expr

end FactorStudy
