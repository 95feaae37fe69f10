import FactorStudy.Proofs.Series.Ranks
import FactorStudy.Proofs.Evaluation.Definedness

/-!
# No infinities inside an expression

The values of an expression are finite or undefined, at every node. Almost every function sees to it
by itself, and what it makes of its series does not matter. The ranks of a whole series are the
exception: they are finite because a panel has a bar for each of its times at most, and there are
fewer times than doubles can count (`Panel.size_lt`).
-/

namespace FactorStudy

open Number Double

/-! ## How many bars there can be -/

/-- There is no more room for increasing numbers than for numbers. -/
theorem length_le_of_increasing {l : List ℤ} (h : l.Pairwise (· < ·)) {a b : ℤ}
    (hmem : ∀ x ∈ l, a ≤ x ∧ x < b) : l.length ≤ (b - a).toNat := by
  rw [← List.toFinset_card_of_nodup (h.imp fun hlt => hlt.ne), ← Int.card_Ico]
  refine Finset.card_le_card fun x hx => ?_
  rw [List.mem_toFinset] at hx
  exact Finset.mem_Ico.mpr (hmem x hx)

theorem Timestamp.key_mem (t : Timestamp) : -2 ^ 75 ≤ t.key ∧ t.key < 2 ^ 75 := by
  obtain ⟨hfirst, hlast⟩ := t.date.year_mem
  obtain ⟨hmonth, hmonth'⟩ := t.date.month_mem
  obtain ⟨hday, hday'⟩ := t.date.day_mem
  have hdays := daysInMonth_le t.date.year t.date.month
  have hsecond := t.second_lt
  have hnano := t.nano_lt
  rw [firstYear] at hfirst
  rw [lastYear] at hlast
  rw [Timestamp.key, Date.key]
  constructor
  · omega
  · omega

theorem Panel.size_lt {α : Type} (p : Panel α) : p.size < 2 ^ 77 := by
  have hkeys : (p.bars.map fun b => b.timestamp.key).Pairwise (· < ·) :=
    List.pairwise_map.mpr p.increasing
  have hlen := length_le_of_increasing hkeys (a := -2 ^ 75) (b := 2 ^ 75) (by
    intro x hx
    obtain ⟨b, -, rfl⟩ := List.mem_map.mp hx
    exact b.timestamp.key_mem)
  rw [List.length_map] at hlen
  refine Nat.lt_of_le_of_lt hlen ?_
  decide

/-! ## Ranks are finite -/

namespace Double

/-- What is rounded from a number between 0 and a power of two stays between them. -/
theorem RoundsTo.bounded {x : Float} {q : ℚ} (h : RoundsTo x q) (hpos : 0 ≤ q) {e : ℤ}
    (hle : q ≤ 2 ^ e) (hlow : -1074 ≤ e) (hhigh : e ≤ 971) :
    isFinite x = true ∧ 0 ≤ value x ∧ value x ≤ 2 ^ e := by
  obtain ⟨c, hc, hvalue⟩ := exists_value (n := 1) (by decide) hlow hhigh
  rw [Nat.cast_one, one_mul] at hvalue
  have hpow : (0 : ℚ) < 2 ^ e := by positivity
  refine ⟨h.finite hc (by linarith) (by linarith), h.nonneg hpos, ?_⟩
  rw [← hvalue]
  exact h.value_le (isNaN_of_isFinite hc) (by linarith)

theorem ofNat_bounded {n : ℕ} {e : ℕ} (hn : n ≤ 2 ^ e) (hhigh : e ≤ 971) :
    isFinite (ofNat n : Float) = true ∧ 0 ≤ value (ofNat n) ∧ value (ofNat n) ≤ 2 ^ (e : ℤ) :=
  (roundsTo_ofNat n).bounded n.cast_nonneg (by rw [zpow_natCast]; exact_mod_cast hn) (by omega)
    (by omega)

theorem one_le_value_ofNat {n : ℕ} (hn : 0 < n) : 1 ≤ value (ofNat n) := by
  rw [← value_one]
  refine (roundsTo_ofNat n).le_value rfl ?_
  rw [value_one]
  exact_mod_cast hn

end Double

namespace Series

/-- A mean place, and a share of it. -/
theorem isFinite_meanPlace_div {b t n : ℕ} (hplace : b + (b + (t - 1)) ≤ 2 ^ 128) (hpos : 0 < n)
    (hn : n ≤ 2 ^ 128) : isFinite (meanPlace b t / ofNat n) = true := by
  obtain ⟨hfinite, hnonneg, hle⟩ := ofNat_bounded hplace (by decide)
  -- each operation keeps what it is given below a power of two that is in range
  obtain ⟨hhalf, hhalf₀, hhalf₁⟩ := (roundsTo_half hfinite).bounded (by linarith)
    (show value _ / 2 ≤ 2 ^ (128 : ℤ) by push_cast at hle ⊢; linarith) (by decide) (by decide)
  have hone : value (ofNat 1) = 1 := value_one
  obtain ⟨hplace, hplace₀, hplace₁⟩ :=
    (roundsTo_add hhalf (isFinite_ofNat (n := 1) (by decide))).bounded (by rw [hone]; linarith)
      (show _ ≤ (2 : ℚ) ^ (129 : ℤ) by rw [hone]; norm_num at hhalf₁ ⊢; linarith) (by decide)
      (by decide)
  obtain ⟨hcount, -, -⟩ := ofNat_bounded hn (by decide)
  have hcount₁ := one_le_value_ofNat hpos
  have hshare := div_le_self hplace₀ hcount₁
  exact ((roundsTo_div hplace hcount (by linarith)).bounded (div_nonneg hplace₀ (by linarith))
    (hshare.trans hplace₁) (by decide) (by decide)).1

theorem mem_refill {x values : List Float} {v : Float} (h : v ∈ refill x values) :
    v = nan ∨ v ∈ values := by
  obtain ⟨i, hi⟩ := List.mem_iff_getElem?.mp h
  obtain ⟨hlt, -⟩ := List.getElem?_eq_some_iff.mp hi
  rw [length_refill] at hlt
  rw [getElem?_refill (List.getElem?_eq_getElem hlt), Option.some.injEq] at hi
  rw [← hi, List.getD_eq_getElem?_getD]
  split
  · exact Or.inl rfl
  · cases hv : values[(defined (x.take i)).length]? with
    | none => exact Or.inl rfl
    | some r => exact Or.inr (List.mem_of_getElem? hv)

/-- Each value is finite or undefined. -/
def Clean (x : List Float) : Prop := ∀ v ∈ x, isFinite v = true ∨ v = nan

theorem clean_rank {x : List Float} (hsize : x.length < 2 ^ 77) : Clean (rank x) := by
  intro v hv
  rcases mem_refill hv with rfl | hv
  · exact Or.inr rfl
  · left
    obtain ⟨r, hr, rfl⟩ := List.mem_map.mp hv
    have hdef : ∀ u ∈ defined x, isNaN u = false := fun _ => isNaN_of_mem_defined
    rw [averageRanks_eq hdef] at hr
    obtain ⟨u, hu, rfl⟩ := List.mem_map.mp hr
    obtain ⟨htied, hcounts⟩ := counts_spec hdef hu
    have hlen : (defined x).length ≤ x.length := List.length_filter_le _ _
    exact isFinite_meanPlace_div (by omega) (by omega) (by omega)

/-! ## The other functions -/

theorem finite_or_nan_orNaN (v : Float) : isFinite (orNaN v) = true ∨ orNaN v = nan := by
  unfold orNaN
  split
  · exact Or.inl ‹_›
  · exact Or.inr rfl

theorem clean_clean (x : List Float) : Clean (clean x) := by
  intro v hv
  obtain ⟨u, -, rfl⟩ := List.mem_map.mp hv
  exact finite_or_nan_orNaN u

theorem clean_map (f : Float → Float) (x : List Float) : Clean (Series.map f x) := by
  intro v hv
  obtain ⟨u, -, rfl⟩ := List.mem_map.mp hv
  unfold strict
  split
  · exact Or.inr rfl
  · exact finite_or_nan_orNaN _

/-- What is computed from two series, each value being finite or undefined by itself. -/
theorem clean_of_zipWith {g : Float → Float → Float}
    (hg : ∀ v w, isFinite (g v w) = true ∨ g v w = nan) (x y : List Float) :
    Clean (x.zipWith g y) := by
  intro v hv
  obtain ⟨i, hi⟩ := List.mem_iff_getElem?.mp hv
  obtain ⟨a, b, -, -, rfl⟩ := List.getElem?_zipWith_eq_some.mp hi
  exact hg a b

theorem clean_zipWith (f : Float → Float → Float) (x y : List Float) :
    Clean (Series.zipWith f x y) := by
  refine clean_of_zipWith (fun v w => ?_) x y
  unfold strict₂
  split
  · exact Or.inr rfl
  · exact finite_or_nan_orNaN _

theorem clean_nowhere (x : List Float) : Clean (nowhere x) := by
  intro v hv
  obtain ⟨u, -, rfl⟩ := List.mem_map.mp hv
  exact Or.inr rfl

theorem clean_delay {x : List Float} (hx : Clean x) (n : ℕ) : Clean (delay x n) := by
  intro v hv
  obtain ⟨i, -, rfl⟩ := List.mem_map.mp hv
  split
  · rw [List.getD_eq_getElem?_getD]
    cases hu : x[i - n]? with
    | none => exact Or.inr rfl
    | some u => exact hx u (List.mem_of_getElem? hu)
  · exact Or.inr rfl

theorem clean_shift {x : List Float} (hx : Clean x) (n : ℕ) (f : Shift) : Clean (f.apply x n) := by
  have hreturns : Clean (returns x n) := clean_of_zipWith (fun v w => by
    unfold relativeChange
    split
    · exact Or.inr rfl
    · exact finite_or_nan_orNaN _) x _
  cases f with
  | delay => exact clean_delay hx n
  | delta => exact clean_of_zipWith (fun v w => finite_or_nan_orNaN _) x _
  | returns => exact hreturns
  | pctChange => exact hreturns

theorem clean_rolling (f : List Float → Float) (x : List Float) (n : ℕ) : Clean (rolling f x n) := by
  intro v hv
  obtain ⟨i, -, rfl⟩ := List.mem_map.mp hv
  cases trailing? x n i with
  | none => exact Or.inr rfl
  | some w =>
    rw [Option.map_some, Option.getD_some, onWindow]
    split
    · exact Or.inr rfl
    · exact finite_or_nan_orNaN _

theorem clean_rollingPair (f : List Float → List Float → Float) (x y : List Float) (n : ℕ) :
    Clean (rollingPair f x y n) := by
  intro v hv
  obtain ⟨i, -, rfl⟩ := List.mem_map.mp hv
  split
  · unfold onWindows
    split
    · exact Or.inr rfl
    · exact finite_or_nan_orNaN _
  · exact Or.inr rfl

theorem clean_transform {x : List Float} (hsize : x.length < 2 ^ 77) (t : Transform) :
    Clean (t.apply x) := by
  cases t with
  | winsorize =>
    simp only [Transform.apply, winsorize]
    split
    · exact clean_map _ _
    · exact clean_nowhere x
  | standardize =>
    simp only [Transform.apply, standardize]
    split
    · split
      · exact clean_map _ _
      · exact clean_nowhere x
    · exact clean_nowhere x
  | normalize =>
    simp only [Transform.apply, normalize]
    split
    · exact clean_map _ _
    · exact clean_nowhere x
  | demean =>
    simp only [Transform.apply, demean]
    split
    · exact clean_map _ _
    · exact clean_nowhere x
  -- ranks are not cleaned afterwards; they are finite by how they are counted
  | rank => exact clean_rank hsize

end Series

open Series

/-- Every function keeps its series clean. -/
theorem Builtin.clean_apply (f : Builtin) {series : List (List Float)}
    (hclean : ∀ x ∈ series, Clean x) (hsize : ∀ x ∈ series, x.length < 2 ^ 77) (n : ℕ) :
    Clean (f.apply series n) := by
  have hfirst : Clean (series.getD 0 []) ∧ (series.getD 0 []).length < 2 ^ 77 := by
    cases series with
    | nil => exact ⟨nofun, by decide⟩
    | cons x series => exact ⟨hclean x List.mem_cons_self, hsize x List.mem_cons_self⟩
  cases f with
  | shift f => exact clean_shift hfirst.1 n f
  | rolling f => exact clean_rolling f.statistic _ n
  | pairwise f => exact clean_rollingPair f.statistic _ _ n
  | transform t => exact clean_transform hfirst.2 t
  | pointwise f => exact clean_map f.function _
  | merge f =>
    cases f with
    | max => exact clean_zipWith _ _ _
    | min => exact clean_zipWith _ _ _
    -- one that is not cleaned: it chooses between two clean values
    | fillna => exact clean_of_zipWith (fun v w => finite_or_nan_orNaN _) _ _

/-- **No infinities.** The values of an accepted expression are finite or undefined. -/
theorem Expr.Accepted.clean_eval {e : Expr} (he : e.Accepted) (p : Panel Float) :
    Clean (e.eval p) := by
  induction e using Expr.induction with
  | literal v => exact clean_clean _
  | column c => exact clean_clean _
  -- negations and operators clean what they compute, so nothing is asked of the operands
  | neg e ih => exact clean_map _ _
  | binary op l r ihl ihr => exact clean_zipWith _ _ _
  | call f args ih =>
    rw [Expr.eval_call]
    have hargs : ∀ a ∈ args.take f.seriesArity, a.Accepted := fun a ha =>
      he.of_mem_args (List.mem_of_mem_take ha)
    refine f.clean_apply ?_ ?_ _
    · rw [List.forall_mem_map]
      exact fun a ha => ih a (List.mem_of_mem_take ha) (hargs a ha)
    · rw [List.forall_mem_map]
      intro a ha
      rw [(hargs a ha).length_eval]
      exact p.size_lt

end FactorStudy
