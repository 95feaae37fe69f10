import FactorStudy.Proofs.Double.Undefined
import FactorStudy.Proofs.Evaluation.Accepted

/-!
# Undefined values propagate

A value that is missing must not turn into a number on its way through an expression. Except for
`fillna`, which is there to replace missing values, every function is strict in everything it reads:
where its result is defined, so is each series it was given, at each bar it looked at.

`Builtin.ReadsBar` says at which bars a function looks, counted from the first bar of the panel and
negative before it. With it `Reads` leads from a value to the values it was computed from, and
`BuiltFrom` from there to all that stands behind it, down to columns and literals. A function keeps
definedness along `ReadsBar` (`Builtin.definedAt_of_apply`), so an expression keeps it along `Reads`
and, step by step, along `BuiltFrom`. A negative bar never has a value, which is why a window or a
shift too long for the panel leaves nothing defined above it.
-/

namespace FactorStudy

open Number

namespace Series

/-- Whether a series has a defined value at a bar. -/
def DefinedAt (x : List Float) (i : ℤ) : Prop :=
  ∃ k : ℕ, i = k ∧ ∃ v, x[k]? = some v ∧ isNaN v = false

theorem DefinedAt.nonneg {x : List Float} {i : ℤ} (h : DefinedAt x i) : 0 ≤ i := by
  obtain ⟨k, rfl, -⟩ := h
  omega

theorem DefinedAt.lt_length {x : List Float} {i : ℤ} (h : DefinedAt x i) : i < x.length := by
  obtain ⟨k, rfl, v, hv, -⟩ := h
  exact_mod_cast (List.getElem?_eq_some_iff.mp hv).1

theorem definedAt_natCast {x : List Float} {k : ℕ} :
    DefinedAt x k ↔ ∃ v, x[k]? = some v ∧ isNaN v = false := by
  constructor
  · rintro ⟨k', hk, h⟩
    rw [show k = k' by omega]
    exact h
  · intro h
    exact ⟨k, rfl, h⟩

/-- A series that is given bar by bar. -/
theorem exists_of_definedAt_map_range {g : ℕ → Float} {m : ℕ} {i : ℤ}
    (h : DefinedAt ((List.range m).map g) i) : ∃ k : ℕ, i = k ∧ k < m ∧ isNaN (g k) = false := by
  obtain ⟨k, rfl, v, hv, hdef⟩ := h
  obtain ⟨hlt, rfl⟩ := List.getElem?_eq_some_iff.mp hv
  rw [List.length_map, List.length_range] at hlt
  rw [List.getElem_map, List.getElem_range] at hdef
  exact ⟨k, rfl, hlt, hdef⟩

/-! ## Bar by bar -/

/-- A function of one value that is undefined where the value is. -/
def Strict (g : Float → Float) : Prop := ∀ v, isNaN (g v) = false → isNaN v = false

/-- The same for a function of two values. -/
def Strict₂ (g : Float → Float → Float) : Prop :=
  ∀ v w, isNaN (g v w) = false → isNaN v = false ∧ isNaN w = false

theorem strict_strict (f : Float → Float) : Strict (strict f) := by
  intro v h
  unfold strict at h
  split at h
  · cases h
  · rename_i hv
    exact Bool.not_eq_true _ ▸ hv

theorem strict₂_strict₂ (f : Float → Float → Float) : Strict₂ (strict₂ f) := by
  intro v w h
  unfold strict₂ at h
  split at h
  · cases h
  · rename_i hvw
    rw [Bool.not_eq_true, Bool.or_eq_false_iff] at hvw
    exact hvw

theorem strict₂_difference : Strict₂ fun a b => orNaN (a - b) := by
  intro v w h
  have hfinite : isFinite (v - w) = true := Double.isFinite_of_isNaN_orNaN h
  exact Double.defined_of_sub (Double.isNaN_of_isFinite hfinite)

theorem strict₂_relativeChange : Strict₂ (relativeChange (α := Float)) := by
  intro v w h
  unfold relativeChange at h
  split at h
  · cases h
  · have hfinite := Double.isNaN_of_isFinite (Double.isFinite_of_isNaN_orNaN h)
    exact Double.defined_of_div (Double.defined_of_sub hfinite).1

theorem definedAt_of_map {g : Float → Float} (hg : Strict g) {x : List Float} {i : ℤ}
    (h : DefinedAt (x.map g) i) : DefinedAt x i := by
  obtain ⟨k, rfl, v, hv, hdef⟩ := h
  rw [List.getElem?_map] at hv
  obtain ⟨u, hu, rfl⟩ := Option.map_eq_some_iff.mp hv
  exact ⟨k, rfl, u, hu, hg u hdef⟩

theorem definedAt_of_zipWith {g : Float → Float → Float} (hg : Strict₂ g) {x y : List Float} {i : ℤ}
    (h : DefinedAt (x.zipWith g y) i) : DefinedAt x i ∧ DefinedAt y i := by
  obtain ⟨k, rfl, v, hv, hdef⟩ := h
  obtain ⟨a, b, ha, hb, rfl⟩ := List.getElem?_zipWith_eq_some.mp hv
  obtain ⟨hda, hdb⟩ := hg a b hdef
  exact ⟨⟨k, rfl, a, ha, hda⟩, ⟨k, rfl, b, hb, hdb⟩⟩

/-! ## Looking back -/

theorem definedAt_of_delay {x : List Float} {n : ℕ} {i : ℤ} (h : DefinedAt (delay x n) i) :
    DefinedAt x (i - n) := by
  obtain ⟨k, rfl, -, hdef⟩ := exists_of_definedAt_map_range h
  by_cases hback : n ≤ k
  · rw [if_pos hback, List.getD_eq_getElem?_getD] at hdef
    refine ⟨k - n, by omega, ?_⟩
    cases hx : x[k - n]? with
    | none =>
      rw [hx] at hdef
      cases hdef
    | some u =>
      rw [hx] at hdef
      exact ⟨u, rfl, hdef⟩
  · -- the bar asked for lies before the first
    rw [if_neg hback] at hdef
    cases hdef

/-- A window without undefined entries has a value at each of its bars. -/
theorem definedAt_of_trailing {x w : List Float} {n k : ℕ} (hw : trailing? x n k = some w)
    (hk : k < x.length) (hdef : w.any isNaN = false) {j : ℤ} (hlow : (k : ℤ) - n < j)
    (hhigh : j ≤ k) : DefinedAt x j := by
  unfold trailing? at hw
  split at hw
  · rename_i hn
    cases hw
    obtain ⟨m, rfl⟩ : ∃ m : ℕ, j = m := ⟨j.toNat, by omega⟩
    have hm : m < x.length := by omega
    refine ⟨m, rfl, x[m], List.getElem?_eq_getElem hm, ?_⟩
    -- the bar is one of the window's, at its distance from the oldest
    have hmem : x[m] ∈ (x.drop (k + 1 - n)).take n := by
      refine List.mem_of_getElem? (i := m - (k + 1 - n)) ?_
      rw [List.getElem?_take_of_lt (by omega), List.getElem?_drop,
        show k + 1 - n + (m - (k + 1 - n)) = m by omega]
      exact List.getElem?_eq_getElem hm
    exact Bool.not_eq_true _ ▸ List.any_eq_false.mp hdef _ hmem
  · cases hw

theorem definedAt_of_rolling {f : List Float → Float} {x : List Float} {n : ℕ} {i j : ℤ}
    (h : DefinedAt (rolling f x n) i) (hlow : i - n < j) (hhigh : j ≤ i) : DefinedAt x j := by
  obtain ⟨k, rfl, hlt, hdef⟩ := exists_of_definedAt_map_range h
  cases hw : trailing? x n k with
  | none =>
    rw [hw, Option.map_none, Option.getD_none] at hdef
    cases hdef
  | some w =>
    rw [hw, Option.map_some, Option.getD_some] at hdef
    unfold onWindow at hdef
    split at hdef
    · cases hdef
    · rename_i hany
      exact definedAt_of_trailing hw hlt (Bool.not_eq_true _ ▸ hany) hlow hhigh

theorem definedAt_of_rollingPair {f : List Float → List Float → Float} {x y : List Float} {n : ℕ}
    {i j : ℤ} (h : DefinedAt (rollingPair f x y n) i) (hlow : i - n < j) (hhigh : j ≤ i) :
    DefinedAt x j ∧ DefinedAt y j := by
  obtain ⟨k, rfl, hlt, hdef⟩ := exists_of_definedAt_map_range h
  split at hdef
  · rename_i wx wy hwx hwy
    unfold onWindows at hdef
    split at hdef
    · cases hdef
    · rename_i hany
      rw [Bool.not_eq_true, Bool.or_eq_false_iff] at hany
      exact ⟨definedAt_of_trailing hwx (by omega) hany.1 hlow hhigh,
        definedAt_of_trailing hwy (by omega) hany.2 hlow hhigh⟩
  · cases hdef

/-! ## Functions of the series as a whole -/

theorem not_definedAt_nowhere {x : List Float} {i : ℤ} : ¬ DefinedAt (nowhere x) i := by
  rintro ⟨k, rfl, v, hv, hdef⟩
  rw [nowhere, List.getElem?_map] at hv
  obtain ⟨u, -, rfl⟩ := Option.map_eq_some_iff.mp hv
  cases hdef

/-- The entry behind a defined one is refilled from the rest of the values, whatever it is. -/
theorem exists_refill_cons (u : Float) (x values : List Float) :
    ∃ (v : Float) (rest : List Float), refill (u :: x) values = v :: refill x rest ∧
      (isNaN u = true → v = nan) := by
  cases hu : isNaN u with
  | true =>
    cases values with
    | nil => exact ⟨nan, [], by rw [refill, if_pos hu], fun _ => rfl⟩
    | cons r values => exact ⟨nan, r :: values, by rw [refill, if_pos hu], fun _ => rfl⟩
  | false =>
    have hu : ¬ isNaN u = true := by
      rw [hu]
      decide
    cases values with
    | nil => exact ⟨nan, [], by rw [refill, if_neg hu], fun _ => rfl⟩
    | cons r values =>
      exact ⟨r, values, by rw [refill, if_neg hu], fun h => absurd h Bool.false_ne_true⟩

/-- Ranks go back to the defined places. -/
theorem definedAt_of_refill {x : List Float} :
    ∀ {values : List Float} {i : ℤ}, DefinedAt (refill x values) i → DefinedAt x i := by
  -- a defined place takes the next of the values, an undefined one takes none
  induction x with
  | nil =>
    rintro values i ⟨k, rfl, v, hv, -⟩
    cases values <;> cases hv
  | cons u x ih =>
    rintro values i ⟨k, rfl, v, hv, hdef⟩
    obtain ⟨w, rest, hrefill, hundefined⟩ := exists_refill_cons u x values
    rw [hrefill] at hv
    cases k with
    | zero =>
      obtain rfl : w = v := Option.some.inj hv
      refine ⟨0, rfl, u, rfl, ?_⟩
      by_contra hu
      rw [Bool.not_eq_false] at hu
      rw [hundefined hu] at hdef
      cases hdef
    | succ k =>
      obtain ⟨u', hu'⟩ := definedAt_natCast.mp (ih (definedAt_natCast.mpr ⟨v, hv, hdef⟩))
      exact ⟨k + 1, rfl, u', hu'⟩

theorem definedAt_of_transform (t : Transform) {x : List Float} {i : ℤ}
    (h : DefinedAt (t.apply x) i) : DefinedAt x i := by
  have hmap : ∀ {f : Float → Float}, DefinedAt (Series.map f x) i → DefinedAt x i :=
    fun h => definedAt_of_map (strict_strict _) h
  cases t with
  | winsorize =>
    simp only [Transform.apply, winsorize] at h
    split at h
    · exact hmap h
    · exact absurd h not_definedAt_nowhere
  | standardize =>
    simp only [Transform.apply, standardize] at h
    split at h
    · split at h
      · exact hmap h
      · exact absurd h not_definedAt_nowhere
    · exact absurd h not_definedAt_nowhere
  | normalize =>
    simp only [Transform.apply, normalize] at h
    split at h
    · exact hmap h
    · exact absurd h not_definedAt_nowhere
  | demean =>
    simp only [Transform.apply, demean] at h
    split at h
    · exact hmap h
    · exact absurd h not_definedAt_nowhere
  -- the others are maps once their figures exist; ranks go back to their places
  | rank => exact definedAt_of_refill h

end Series

open Series

/-! ## The function library -/

namespace Builtin

/-- The bars at which a function with window `n` reads its series for the value at bar `i`. -/
def ReadsBar (f : Builtin) (n : ℕ) (i j : ℤ) : Prop :=
  match f with
  | .shift .delay => j = i - n
  | .shift _ => j = i ∨ j = i - n
  | .rolling _ | .pairwise _ => i - n < j ∧ j ≤ i
  | .transform _ | .pointwise _ | .merge _ => j = i

theorem definedAt_of_shift {x : List Float} {n : ℕ} {i j : ℤ} (f : Shift)
    (h : DefinedAt (f.apply x n) i) (hj : (Builtin.shift f).ReadsBar n i j) : DefinedAt x j := by
  -- a difference is defined where both of its sides are
  have hboth : ∀ {g : Float → Float → Float}, Strict₂ g →
      DefinedAt (x.zipWith g (delay x n)) i → j = i ∨ j = i - n → DefinedAt x j := by
    rintro g hg hdef (rfl | rfl)
    · exact (definedAt_of_zipWith hg hdef).1
    · exact definedAt_of_delay (definedAt_of_zipWith hg hdef).2
  cases f with
  | delay =>
    obtain rfl : j = i - n := hj
    exact definedAt_of_delay h
  | delta => exact hboth strict₂_difference h hj
  | returns => exact hboth strict₂_relativeChange h hj
  | pctChange => exact hboth strict₂_relativeChange h hj

/-- **Strictness.** Where a function other than `fillna` is defined, its series are defined at every
bar it reads. -/
theorem definedAt_of_apply {f : Builtin} (hfill : f ≠ .merge .fillna) {series : List (List Float)}
    (hlen : series.length = f.seriesArity) {n : ℕ} {i j : ℤ} (h : DefinedAt (f.apply series n) i)
    (hj : f.ReadsBar n i j) {x : List Float} (hx : x ∈ series) : DefinedAt x j := by
  cases f with
  | shift f =>
    obtain ⟨y, rfl⟩ := List.length_eq_one_iff.mp hlen
    obtain rfl := List.mem_singleton.mp hx
    exact definedAt_of_shift f h hj
  | rolling f =>
    obtain ⟨y, rfl⟩ := List.length_eq_one_iff.mp hlen
    obtain rfl := List.mem_singleton.mp hx
    exact definedAt_of_rolling h hj.1 hj.2
  | pairwise f =>
    obtain ⟨y, z, rfl⟩ := List.length_eq_two.mp hlen
    have hboth := definedAt_of_rollingPair h hj.1 hj.2
    rcases List.mem_pair.mp hx with rfl | rfl
    · exact hboth.1
    · exact hboth.2
  | transform t =>
    obtain ⟨y, rfl⟩ := List.length_eq_one_iff.mp hlen
    obtain rfl := List.mem_singleton.mp hx
    obtain rfl : j = i := hj
    exact definedAt_of_transform t h
  | pointwise f =>
    obtain ⟨y, rfl⟩ := List.length_eq_one_iff.mp hlen
    obtain rfl := List.mem_singleton.mp hx
    obtain rfl : j = i := hj
    exact definedAt_of_map (strict_strict _) h
  | merge f =>
    obtain ⟨y, z, rfl⟩ := List.length_eq_two.mp hlen
    obtain rfl : j = i := hj
    have hboth : DefinedAt y j ∧ DefinedAt z j := by
      cases f with
      | max => exact definedAt_of_zipWith (strict₂_strict₂ _) h
      | min => exact definedAt_of_zipWith (strict₂_strict₂ _) h
      -- the one function that makes a value out of an undefined one
      | fillna => exact absurd rfl hfill
    rcases List.mem_pair.mp hx with rfl | rfl
    · exact hboth.1
    · exact hboth.2

/-- Whether a window is too long for a panel of so many bars: a shift has to leave a bar to look at,
a statistic has to fit. -/
def Outgrows (f : Builtin) (n : ℤ) (bars : ℕ) : Prop :=
  match f with
  | .shift _ => (bars : ℤ) ≤ n
  | _ => (bars : ℤ) < n

/-- The earliest bar that a function reads is negative when its window outgrows the panel. -/
theorem exists_readsBar {f : Builtin} {n : ℕ} (hn : f.hasWindow = true → n = 0 →
    f.allowsZeroWindow = true) (i : ℤ) :
    ∃ j, f.ReadsBar n i j ∧
      ∀ bars : ℕ, 0 ≤ j → i < bars → f.hasWindow = true → ¬ f.Outgrows n bars := by
  have hpos : f.hasWindow = true → f.allowsZeroWindow = false → 1 ≤ n := by
    intro hf hzero
    by_contra h0
    rw [hn hf (by omega)] at hzero
    cases hzero
  cases f with
  | shift f =>
    refine ⟨i - n, ?_, ?_⟩
    · cases f with
      | delay => exact rfl
      | delta => exact Or.inr rfl
      | returns => exact Or.inr rfl
      | pctChange => exact Or.inr rfl
    · intro bars hj hi _ hout
      have hout : (bars : ℤ) ≤ n := hout
      omega
  | rolling f =>
    have hpos := hpos rfl rfl
    -- a window of `n` bars reaches back to its oldest, `n - 1` bars before
    refine ⟨i - n + 1, ⟨by omega, by omega⟩, ?_⟩
    intro bars hj hi _ hout
    have hout : (bars : ℤ) < n := hout
    omega
  | pairwise f =>
    have hpos := hpos rfl rfl
    refine ⟨i - n + 1, ⟨by omega, by omega⟩, ?_⟩
    intro bars hj hi _ hout
    have hout : (bars : ℤ) < n := hout
    omega
  | transform t => exact ⟨i, rfl, fun _ _ _ hf => nomatch hf⟩
  | pointwise f => exact ⟨i, rfl, fun _ _ _ hf => nomatch hf⟩
  | merge f => exact ⟨i, rfl, fun _ _ _ hf => nomatch hf⟩

end Builtin

/-! ## Expressions -/

namespace Expr

/-- What the value of an expression at a bar is computed from: an expression one level down, and the
bar at which its value is read. -/
inductive Reads : Expr × ℤ → Expr × ℤ → Prop
  | neg {e : Expr} {i : ℤ} : Reads (.neg e, i) (e, i)
  | left {op : BinaryOp} {l r : Expr} {i : ℤ} : Reads (.binary op l r, i) (l, i)
  | right {op : BinaryOp} {l r : Expr} {i : ℤ} : Reads (.binary op l r, i) (r, i)
  | call {f : Builtin} {args : List Expr} {i j : ℤ} {e : Expr} :
      e ∈ args.take f.seriesArity → f.ReadsBar (windowLength f args) i j →
        Reads (.call f args, i) (e, j)

/-- Everything that a value is built from, itself included. -/
def BuiltFrom : Expr × ℤ → Expr × ℤ → Prop := Relation.ReflTransGen Reads

/-- An accepted expression in which no missing value is replaced. -/
structure Unfilled (e : Expr) : Prop extends e.Accepted where
  noFill : Builtin.merge .fillna ∉ e.calls

theorem Unfilled.of_reads {e d : Expr} {i j : ℤ} (he : e.Unfilled) (h : Reads (e, i) (d, j)) :
    d.Unfilled := by
  cases h with
  | neg => exact ⟨he.toAccepted.of_neg, he.noFill⟩
  | left =>
    exact ⟨he.toAccepted.of_binary.1, fun hfill => he.noFill (List.mem_append_left _ hfill)⟩
  | right =>
    exact ⟨he.toAccepted.of_binary.2, fun hfill => he.noFill (List.mem_append_right _ hfill)⟩
  | call hmem hbar =>
    have hmem := List.mem_of_mem_take hmem
    refine ⟨he.toAccepted.of_mem_args hmem, fun hfill => he.noFill ?_⟩
    exact List.mem_cons_of_mem _ (mem_callsAll.mpr ⟨_, hmem, hfill⟩)

/-- **One step.** What a defined value is computed from is defined. -/
theorem definedAt_of_reads (p : Panel Float) {e d : Expr} {i j : ℤ} (he : e.Unfilled)
    (hdef : DefinedAt (e.eval p) i) (h : Reads (e, i) (d, j)) : DefinedAt (d.eval p) j := by
  cases h with
  | neg =>
    rw [eval] at hdef
    exact definedAt_of_map (strict_strict _) hdef
  | left =>
    rw [eval] at hdef
    exact (definedAt_of_zipWith (strict₂_strict₂ _) hdef).1
  | right =>
    rw [eval] at hdef
    exact (definedAt_of_zipWith (strict₂_strict₂ _) hdef).2
  | call hmem hbar =>
    rw [eval_call] at hdef
    -- the one function that is not strict does not occur in the expression
    have hfill : _ ≠ Builtin.merge .fillna := fun hf => he.noFill (hf ▸ List.mem_cons_self)
    refine Builtin.definedAt_of_apply hfill ?_ hdef hbar (List.mem_map_of_mem hmem)
    rw [List.length_map]
    exact he.toAccepted.length_series

/-- **All steps.** -/
theorem definedAt_of_builtFrom (p : Panel Float) {e d : Expr} {i j : ℤ} (he : e.Unfilled)
    (hdef : DefinedAt (e.eval p) i) (h : BuiltFrom (e, i) (d, j)) :
    d.Unfilled ∧ DefinedAt (d.eval p) j := by
  have hrun : ∀ place : Expr × ℤ, BuiltFrom (e, i) place →
      place.1.Unfilled ∧ DefinedAt (place.1.eval p) place.2 := by
    intro place hplace
    induction hplace with
    | refl => exact ⟨he, hdef⟩
    | tail hto hreads ih =>
      exact ⟨ih.1.of_reads hreads, definedAt_of_reads p ih.1 ih.2 hreads⟩
  exact hrun (d, j) h

/-- A column is defined where the panel has a finite value. -/
theorem finite_of_definedAt_clean {x : List Float} {i : ℤ} (h : DefinedAt (clean x) i) :
    ∃ k : ℕ, i = k ∧ ∃ v, x[k]? = some v ∧ Number.isFinite v = true := by
  obtain ⟨k, rfl, v, hv, hdef⟩ := h
  rw [clean, List.getElem?_map] at hv
  obtain ⟨u, hu, rfl⟩ := Option.map_eq_some_iff.mp hv
  exact ⟨k, rfl, u, hu, Double.isFinite_of_isNaN_orNaN hdef⟩

/-- Every window in an expression that is defined somewhere fits the panel. -/
theorem not_outgrows_of_definedAt (p : Panel Float) {e : Expr} (he : e.Unfilled) {i : ℤ}
    (hdef : DefinedAt (e.eval p) i) {g : Builtin} {m : ℤ} (hg : (g, m) ∈ e.windows) :
    ¬ g.Outgrows m p.size := by
  induction e using Expr.induction generalizing i with
  | literal v => cases hg
  | column c => cases hg
  | neg e ih =>
    have hstep : Reads (neg e, i) (e, i) := .neg
    exact ih (he.of_reads hstep) (definedAt_of_reads p he hdef hstep) hg
  | binary op l r ihl ihr =>
    have hleft : Reads (binary op l r, i) (l, i) := .left
    have hright : Reads (binary op l r, i) (r, i) := .right
    rcases List.mem_append.mp hg with hg | hg
    · exact ihl (he.of_reads hleft) (definedAt_of_reads p he hdef hleft) hg
    · exact ihr (he.of_reads hright) (definedAt_of_reads p he hdef hright) hg
  | call f args ih =>
    have hi : i < p.size := by
      rw [← he.toAccepted.length_eval p]
      exact hdef.lt_length
    -- an own window that is too long would read a bar before the first
    obtain ⟨j, hj, hfits⟩ := Builtin.exists_readsBar (n := windowLength f args)
      (fun hf => (he.toAccepted.windowOf_eq hf).2.1) i
    have hread : ∀ {a : Expr}, a ∈ args.take f.seriesArity → DefinedAt (a.eval p) j :=
      fun ha => definedAt_of_reads p he hdef (.call ha hj)
    rcases he.toAccepted.mem_windows_call.mp hg with ⟨hf, rfl, rfl⟩ | ⟨a, ha, hg⟩
    · obtain ⟨a, ha⟩ := he.toAccepted.exists_mem_series
      exact hfits p.size (hread ha).nonneg hi hf
    · -- windows further down: in a series, since the number behind them has none
      rcases he.toAccepted.mem_series_or ha with hseries | ⟨v, rfl⟩
      · exact ih a ha (he.of_reads (.call hseries hj)) (hread hseries) hg
      · cases hg

/-- **Undefined values propagate.** In an accepted expression without `fillna`, a value that is
defined was computed from defined values only: it leads to no bar before the first, no value of a
column that is not finite and no literal beyond the range of doubles. So a window that is too long
for the panel, wherever it stands, leaves the whole result undefined. -/
theorem evaluate_defined_builtFrom {text : String} {e : Expr} (hcheck : check text = .ok e)
    (hfill : Builtin.merge .fillna ∉ e.calls) (p : Panel Float) :
    ∃ whole, e.evaluate .lenient p = .ok whole ∧
      (∀ i : ℕ, (whole.get? i).isSome = true → ∀ (d : Expr) (j : ℤ), BuiltFrom (e, i) (d, j) →
        0 ≤ j ∧ DefinedAt (d.eval p) j ∧
        (∀ c, d = .column c →
          ∃ k : ℕ, j = k ∧ ∃ v, (p.column c)[k]? = some v ∧ v.isFinite = true) ∧
        ∀ v, d = .literal v → v.isFinite = true) ∧
      ((∃ f n, (f, n) ∈ e.windows ∧ f.Outgrows n p.size) → whole.allUndefined = true) := by
  have he : e.Unfilled := ⟨accepted_of_check hcheck, hfill⟩
  have hwin := (check_eq_ok_iff.mp hcheck).2
  -- what the caller is shown is cleaned; a value that is shown is one of the evaluator's
  have hdefined : ∀ i : ℕ, ((FactorSeries.ofValues (e.eval p)).get? i).isSome = true →
      DefinedAt (e.eval p) i := by
    intro i hi
    obtain ⟨v, hv⟩ := Option.isSome_iff_exists.mp hi
    obtain ⟨hv, hdef⟩ := Option.filter_eq_some_iff.mp hv
    have hclean : DefinedAt (clean (e.eval p)) i := ⟨i, rfl, v, hv, by simpa using hdef⟩
    obtain ⟨k, hk, u, hu, hfinite⟩ := finite_of_definedAt_clean hclean
    exact ⟨k, hk, u, hu, Double.isNaN_of_isFinite hfinite⟩
  refine ⟨_, evaluate_lenient hwin p, ?_, ?_⟩
  · intro i hi d j hbuilt
    obtain ⟨-, hdef⟩ := definedAt_of_builtFrom p he (hdefined i hi) hbuilt
    refine ⟨hdef.nonneg, hdef, ?_, ?_⟩
    · rintro c rfl
      rw [eval] at hdef
      exact finite_of_definedAt_clean hdef
    · rintro v rfl
      rw [eval] at hdef
      obtain ⟨k, -, u, hu, hfinite⟩ := finite_of_definedAt_clean hdef
      rwa [List.eq_of_mem_replicate (List.mem_of_getElem? hu)] at hfinite
  · -- a single defined entry would be one with the window that does not fit
    rintro ⟨f, n, hmem, hout⟩
    refine List.all_eq_true.mpr ?_
    intro v hv
    by_contra hnan
    rw [Bool.not_eq_true] at hnan
    obtain ⟨i, hi⟩ := List.mem_iff_getElem?.mp hv
    have hsome : ((FactorSeries.ofValues (e.eval p)).get? i).isSome = true := by
      rw [FactorSeries.get?, hi, Option.filter_some, hnan]
      rfl
    exact not_outgrows_of_definedAt p he (hdefined i hsome) hmem hout

/-- A trailing mean of relative changes. -/
def meanChange : Expr :=
  .call (.rolling .mean)
    [.binary .div (.column .close) (.call (.shift .delay) [.column .close, .literal 1]), .literal 2]

/-- It has a value on the third day, and that value leads back to the first. -/
theorem evaluate_defined_builtFrom_meanChange :
    check "ts_mean((close / ts_delay(close, 1)), 2)" = .ok meanChange ∧
      Builtin.merge .fillna ∉ meanChange.calls ∧
      BuiltFrom (meanChange, 2) (.column .close, 0) ∧
      ∃ whole, meanChange.evaluate .lenient threeDays = .ok whole ∧
        (whole.get? 2).isSome = true ∧
        (∀ i : ℕ, (whole.get? i).isSome = true → ∀ (d : Expr) (j : ℤ),
          BuiltFrom (meanChange, i) (d, j) →
          0 ≤ j ∧ DefinedAt (d.eval threeDays) j ∧
          (∀ c, d = .column c →
            ∃ k : ℕ, j = k ∧ ∃ v, (threeDays.column c)[k]? = some v ∧ v.isFinite = true) ∧
          ∀ v, d = .literal v → v.isFinite = true) ∧
        ((∃ f n, (f, n) ∈ meanChange.windows ∧ f.Outgrows n threeDays.size) →
          whole.allUndefined = true) := by
  have hcheck : check "ts_mean((close / ts_delay(close, 1)), 2)" = .ok meanChange := by
    -- the text is the one that the tree is written as, so it is read back as the tree
    have hrender : meanChange.render = "ts_mean((close / ts_delay(close, 1)), 2)" := by
      decide +kernel
    rw [← hrender]
    exact check_render (by decide +kernel) (by decide +kernel) (by decide +kernel) rfl
  have hfill : Builtin.merge .fillna ∉ meanChange.calls := by
    simp [meanChange, calls, callsAll]
  -- from the mean to its second bar, there to the delayed price, and there to the bar before
  have hbuilt : BuiltFrom (meanChange, 2) (.column .close, 0) := by
    refine .tail (b := (.call (.shift .delay) [.column .close, .literal 1], 1)) ?_ ?_
    · refine .tail (.single (.call (j := 1) List.mem_cons_self ⟨by decide, by decide⟩)) .right
    · exact .call List.mem_cons_self rfl
  refine ⟨hcheck, hfill, hbuilt, ?_⟩
  obtain ⟨whole, hwhole, hrest⟩ := evaluate_defined_builtFrom hcheck hfill threeDays
  have hsome : ((FactorSeries.ofValues (meanChange.eval threeDays)).get? 2).isSome = true := by
    decide +kernel
  rw [evaluate_lenient (check_eq_ok_iff.mp hcheck).2] at hwhole
  cases hwhole
  exact ⟨_, evaluate_lenient (check_eq_ok_iff.mp hcheck).2 threeDays, hsome, hrest⟩

end Expr

end FactorStudy
