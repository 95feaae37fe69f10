import FactorStudy.Proofs.Evaluation.Prefix
import FactorStudy.Proofs.Grammar.RoundTrip
import FactorStudy.Study.Request

/-!
# Accepted expressions

An expression is evaluated after two checks, of its text and of its windows. Here is what they
establish of the tree: every call has the arguments its function takes, and its window is a count
within the limits (`Accepted`). Both hold of every expression inside an accepted one, so an
induction on the tree can rely on them at each node.
-/

namespace FactorStudy

/-- Every function takes a series. -/
theorem Builtin.seriesArity_pos (f : Builtin) : 0 < f.seriesArity := by
  cases f <;> exact Nat.succ_pos _

namespace Expr

open FactorStudy.Expr.Parser (isWindow)

/-- Every call has its arguments, and no window has a fault. -/
structure Accepted (e : Expr) : Prop where
  wellFormed : e.wellFormed = true
  windows : ∀ f n, (f, n) ∈ e.windows → windowFault? f n = none

theorem firstFault_eq_ok_iff {fault? : Builtin → Int → Option WindowFault} {e : Expr} :
    e.firstFault fault? = .ok () ↔ ∀ f n, (f, n) ∈ e.windows → fault? f n = none := by
  unfold firstFault
  generalize hfault : List.findSome? _ e.windows = fault
  -- the search either found nothing, or found a window that has a fault
  cases fault with
  | none =>
    rw [List.findSome?_eq_none_iff] at hfault
    constructor
    · intro _ f n hwindow
      exact Option.map_eq_none_iff.mp (hfault (f, n) hwindow)
    · exact fun _ => rfl
  | some err =>
    obtain ⟨⟨f, n⟩, hwindow, herr⟩ := List.exists_of_findSome?_eq_some hfault
    constructor
    · intro h
      cases h
    · intro h
      have hnone : (fault? f n).map (WindowError.mk f) = none := by
        rw [h f n hwindow]
        rfl
      exact absurd (hnone.symm.trans herr) (by simp)

theorem checkWindows_eq_ok_iff {e : Expr} :
    e.checkWindows = .ok () ↔ ∀ f n, (f, n) ∈ e.windows → windowFault? f n = none :=
  firstFault_eq_ok_iff

theorem checkPanelLength_eq_ok_iff {e : Expr} {bars : ℕ} :
    e.checkPanelLength bars = .ok () ↔ ∀ f n, (f, n) ∈ e.windows → n ≤ bars := by
  refine firstFault_eq_ok_iff.trans (forall₃_congr fun f n _ => ?_)
  rw [← not_lt]
  split
  · rename_i hlt
    exact ⟨nofun, fun h => absurd hlt h⟩
  · rename_i hle
    exact ⟨fun _ => hle, fun _ => rfl⟩

/-- The checks of a text are the reading and the check of the windows. -/
theorem check_eq_ok_iff {text : String} {e : Expr} :
    check text = .ok e ↔ parse text = .ok e ∧ e.checkWindows = .ok () := by
  unfold check
  cases hp : parse text with
  | error err =>
    constructor
    · intro h
      cases h
    · rintro ⟨h, -⟩
      cases h
  | ok e' =>
    constructor
    · intro h
      cases hw : e'.checkWindows with
      | error err =>
        simp only [hw, Except.mapError, bind, Except.bind] at h
        cases h
      | ok u =>
        simp only [hw, Except.mapError, bind, Except.bind] at h
        cases h
        exact ⟨rfl, hw⟩
    · rintro ⟨h, hw⟩
      cases h
      simp only [hw, Except.mapError, bind, Except.bind]
      rfl

theorem accepted_of_check {text : String} {e : Expr} (h : check text = .ok e) : e.Accepted := by
  obtain ⟨hparse, hwin⟩ := check_eq_ok_iff.mp h
  exact ⟨Grammar.wellFormed_of_parse hparse, checkWindows_eq_ok_iff.mp hwin⟩

/-- The printed form of an expression within the limits is accepted as that expression. -/
theorem check_render {e : Expr} (he : e.wellFormed = true) (hfinite : e.isFinite = true)
    (hfits : e.printedNesting ≤ maxDepth) (hwin : e.checkWindows = .ok ()) :
    check e.render = .ok e := by
  refine check_eq_ok_iff.mpr ⟨?_, hwin⟩
  have houtcome := Grammar.outcome_parse_render he
  cases hp : parse e.render with
  | ok e' =>
    rw [hp] at houtcome
    rw [houtcome.1]
  | error err =>
    rw [hp] at houtcome
    exact absurd hfits (Nat.not_le_of_lt (houtcome hfinite).2)

/-! ## Lists of expressions -/

theorem windowsAll_eq_flatMap (es : List Expr) : windowsAll es = es.flatMap windows := by
  induction es with
  | nil => rfl
  | cons e es ih => rw [windowsAll, ih, List.flatMap_cons]

theorem mem_windowsAll {w : Builtin × Int} {es : List Expr} :
    w ∈ windowsAll es ↔ ∃ e ∈ es, w ∈ e.windows := by
  rw [windowsAll_eq_flatMap, List.mem_flatMap]

theorem mem_callsAll {f : Builtin} {es : List Expr} :
    f ∈ callsAll es ↔ ∃ e ∈ es, f ∈ e.calls := by
  induction es with
  | nil => simp [callsAll]
  | cons e es ih => simp [callsAll, ih]

theorem allWellFormed_iff {es : List Expr} :
    allWellFormed es = true ↔ ∀ e ∈ es, e.wellFormed = true := by
  induction es with
  | nil => simp [allWellFormed]
  | cons e es ih => simp [allWellFormed, ih]

theorem evalAll_eq_map (p : Panel Float) (es : List Expr) : evalAll p es = es.map (·.eval p) := by
  induction es with
  | nil => rfl
  | cons e es ih => rw [evalAll, ih, List.map_cons]

/-- Induction on a tree, in which a call may rely on all of its arguments. -/
theorem induction {motive : Expr → Prop} (literal : ∀ v, motive (literal v))
    (column : ∀ c, motive (column c)) (neg : ∀ e, motive e → motive (neg e))
    (binary : ∀ op l r, motive l → motive r → motive (binary op l r))
    (call : ∀ f args, (∀ e ∈ args, motive e) → motive (call f args)) (e : Expr) : motive e := by
  refine @Expr.rec motive (fun es => ∀ e ∈ es, motive e) literal column neg binary call ?_ ?_ e
  · intro e he
    cases he
  · intro e es ih ihs e' he'
    rcases List.mem_cons.mp he' with rfl | he'
    · exact ih
    · exact ihs e' he'

/-- The window that a call is computed with. -/
def windowLength (f : Builtin) (args : List Expr) : ℕ := ((windowOf f args).getD 0).toNat

/-! ## Inside an accepted expression -/

namespace Accepted

variable {e l r : Expr} {op : BinaryOp} {f : Builtin} {args : List Expr}

theorem of_neg (h : (neg e).Accepted) : e.Accepted := by
  refine ⟨?_, h.windows⟩
  have hwf := h.wellFormed
  rw [Expr.wellFormed, Bool.and_eq_true] at hwf
  exact hwf.2

theorem of_binary (h : (binary op l r).Accepted) : l.Accepted ∧ r.Accepted := by
  have hwf := h.wellFormed
  rw [Expr.wellFormed, Bool.and_eq_true] at hwf
  refine ⟨⟨hwf.1, ?_⟩, ⟨hwf.2, ?_⟩⟩
  · intro f n hn
    exact h.windows f n (List.mem_append_left _ hn)
  · intro f n hn
    exact h.windows f n (List.mem_append_right _ hn)

theorem of_mem_args (h : (call f args).Accepted) (he : e ∈ args) : e.Accepted := by
  obtain ⟨-, hargs⟩ := Grammar.wellFormed_call.mp h.wellFormed
  refine ⟨allWellFormed_iff.mp hargs e he, ?_⟩
  intro g n hn
  exact h.windows g n (List.mem_append_right _ (mem_windowsAll.mpr ⟨e, he, hn⟩))

theorem length_args (h : (call f args).Accepted) : args.length = f.arity :=
  (Grammar.wellFormed_call.mp h.wellFormed).1.1

/-- A call has all the series that its function takes. -/
theorem length_series (h : (call f args).Accepted) :
    (args.take f.seriesArity).length = f.seriesArity := by
  have hlen := h.length_args
  unfold Builtin.arity at hlen
  rw [List.length_take]
  omega

theorem exists_mem_series (h : (call f args).Accepted) : ∃ e, e ∈ args.take f.seriesArity := by
  refine List.exists_mem_of_length_pos ?_
  rw [h.length_series]
  exact f.seriesArity_pos

/-- The window of a call stands behind its series. -/
theorem exists_window (h : (call f args).Accepted) (hf : f.hasWindow = true) :
    ∃ v, args = args.take f.seriesArity ++ [.literal v] := by
  obtain ⟨⟨hlen, hlast⟩, -⟩ := Grammar.wellFormed_call.mp h.wellFormed
  have hlen : args.length = f.seriesArity + 1 := by
    rw [hlen, Builtin.arity, if_pos hf]
  -- a function with a window takes one argument more than series
  obtain ⟨x, hx⟩ : ∃ x, args.drop f.seriesArity = [x] := by
    refine List.length_eq_one_iff.mp ?_
    rw [List.length_drop]
    omega
  have hsplit : args = args.take f.seriesArity ++ [x] := by
    rw [← hx, List.take_append_drop]
  have hwindow : isWindow x = true := by
    have := hlast hf
    rwa [hsplit, List.getLast?_concat, Option.any_some] at this
  -- only a literal may stand there
  cases x with
  | literal v => exact ⟨v, hsplit⟩
  | _ => cases hwindow

/-- The arguments behind the series hold no calls. -/
theorem mem_series_or (h : (call f args).Accepted) (he : e ∈ args) :
    e ∈ args.take f.seriesArity ∨ ∃ v, e = .literal v := by
  by_cases hf : f.hasWindow = true
  · obtain ⟨v, hsplit⟩ := h.exists_window hf
    rw [hsplit, List.mem_append, List.mem_singleton] at he
    exact he.imp_right fun he => ⟨v, he⟩
  · left
    have hlen := h.length_args
    rw [Builtin.arity, if_neg hf, Nat.add_zero] at hlen
    rwa [List.take_of_length_le (Nat.le_of_eq hlen)]

/-- A window is a count, at least 1 for a statistic, and no more than the limit. -/
theorem windowOf_eq (h : (call f args).Accepted) (hf : f.hasWindow = true) :
    windowOf f args = some (windowLength f args : ℤ) ∧
      (windowLength f args = 0 → f.allowsZeroWindow = true) ∧ windowLength f args ≤ maxWindow := by
  obtain ⟨v, hsplit⟩ := h.exists_window hf
  have hwindow : windowOf f args = some (Decimal.toInteger v) := by
    rw [windowOf, if_pos hf, hsplit, List.getLast?_concat]
  have hmem : (f, Decimal.toInteger v) ∈ (call f args).windows := by
    rw [Expr.windows, hwindow]
    exact List.mem_append_left _ (List.mem_singleton.mpr rfl)
  -- the check of the windows left three things to go wrong, and none did
  have hfault := h.windows f _ hmem
  unfold windowFault? at hfault
  split_ifs at hfault with hneg hzero hmax
  have hlength : (windowLength f args : ℤ) = Decimal.toInteger v := by
    rw [windowLength, hwindow, Option.getD_some, Int.toNat_of_nonneg (by omega)]
  refine ⟨?_, ?_, ?_⟩
  · rw [hwindow, hlength]
  · intro h0
    have hz : Decimal.toInteger v = 0 := by omega
    by_contra hallow
    exact hzero ⟨hz, hallow⟩
  · omega

/-- The windows of a call are its own, if it has one, and those of its arguments. -/
theorem mem_windows_call (h : (call f args).Accepted) {g : Builtin} {m : ℤ} :
    (g, m) ∈ (call f args).windows ↔
      (f.hasWindow = true ∧ g = f ∧ m = windowLength f args) ∨ ∃ a ∈ args, (g, m) ∈ a.windows := by
  rw [Expr.windows, List.mem_append, mem_windowsAll]
  refine or_congr_left ?_
  by_cases hf : f.hasWindow = true
  · rw [(h.windowOf_eq hf).1]
    simp [hf]
  · rw [windowOf, if_neg hf]
    simp [hf]

end Accepted

/-! ## Evaluation -/

/-- A call is computed from the series of its first arguments and its window. -/
theorem eval_call (p : Panel Float) (f : Builtin) (args : List Expr) :
    (call f args).eval p =
      f.apply ((args.take f.seriesArity).map (·.eval p)) (windowLength f args) := by
  rw [eval, evalAll_eq_map, List.map_take, windowLength]

end Expr

namespace Series

variable {α : Type} [Number α]

theorem length_refill (x : List α) : ∀ values : List α, (refill x values).length = x.length := by
  induction x with
  | nil =>
    intro values
    cases values <;> rfl
  | cons v x ih =>
    intro values
    cases values with
    | nil =>
      rw [refill]
      split <;> rw [List.length_cons, List.length_cons, ih]
    | cons r values =>
      rw [refill]
      split <;> rw [List.length_cons, List.length_cons, ih]

end Series

open Series in
theorem Transform.length_apply {α : Type} [Number α] (t : Transform) (x : List α) :
    (t.apply x).length = x.length := by
  cases t with
  | winsorize =>
    simp only [Transform.apply, Series.winsorize]
    split <;> exact List.length_map _
  | standardize =>
    simp only [Transform.apply, Series.standardize]
    split
    · split <;> exact List.length_map _
    · exact List.length_map _
  | normalize =>
    simp only [Transform.apply, Series.normalize]
    split <;> exact List.length_map _
  | demean =>
    simp only [Transform.apply, Series.demean]
    split <;> exact List.length_map _
  | rank => exact length_refill x _

/-- Series of one length give a series of that length. -/
theorem Builtin.length_apply {α : Type} [Number α] {f : Builtin} {series : List (List α)}
    (hlen : series.length = f.seriesArity) {m : ℕ} (hm : ∀ x ∈ series, x.length = m) (n : ℕ) :
    (f.apply series n).length = m := by
  -- one case for each kind of function: only the kinds differ in how a series is made
  cases f with
  | shift f =>
    obtain ⟨x, rfl⟩ := List.length_eq_one_iff.mp hlen
    have hx : x.length = m := hm x (List.mem_singleton.mpr rfl)
    have hdelay : (Series.delay x n).length = m := by
      rw [Series.delay, List.length_map, List.length_range, hx]
    have hzip : ∀ g : α → α → α, (x.zipWith g (Series.delay x n)).length = m := by
      intro g
      rw [List.length_zipWith, hdelay, hx, Nat.min_self]
    cases f with
    | delay => exact hdelay
    | delta => exact hzip _
    | returns => exact hzip _
    | pctChange => exact hzip _
  | rolling f =>
    obtain ⟨x, rfl⟩ := List.length_eq_one_iff.mp hlen
    show (List.map _ (List.range x.length)).length = m
    rw [List.length_map, List.length_range, hm x (List.mem_singleton.mpr rfl)]
  | pairwise f =>
    obtain ⟨x, y, rfl⟩ := List.length_eq_two.mp hlen
    show (List.map _ (List.range (min x.length y.length))).length = m
    rw [List.length_map, List.length_range, hm x (by simp), hm y (by simp), Nat.min_self]
  | transform t =>
    obtain ⟨x, rfl⟩ := List.length_eq_one_iff.mp hlen
    exact (t.length_apply x).trans (hm x (List.mem_singleton.mpr rfl))
  | pointwise f =>
    obtain ⟨x, rfl⟩ := List.length_eq_one_iff.mp hlen
    exact (List.length_map _).trans (hm x (List.mem_singleton.mpr rfl))
  | merge f =>
    obtain ⟨x, y, rfl⟩ := List.length_eq_two.mp hlen
    have hzip : ∀ g : α → α → α, (x.zipWith g y).length = m := by
      intro g
      rw [List.length_zipWith, hm x (by simp), hm y (by simp), Nat.min_self]
    cases f with
    | max => exact hzip _
    | min => exact hzip _
    | fillna => exact hzip _

/-- An accepted expression has a value, defined or not, at every bar of a panel. -/
theorem Expr.Accepted.length_eval (p : Panel Float) {e : Expr} (he : e.Accepted) :
    (e.eval p).length = p.size := by
  induction e using Expr.induction with
  | literal v => rw [Expr.eval, Series.clean, List.length_map, List.length_replicate]
  | column c => rw [Expr.eval, Series.clean, List.length_map, Panel.column, List.length_map]; rfl
  | neg e ih =>
    rw [Expr.eval, Series.negate, Series.map, List.length_map]
    exact ih he.of_neg
  | binary op l r ihl ihr =>
    obtain ⟨hl, hr⟩ := he.of_binary
    rw [Expr.eval, BinaryOp.apply, Series.zipWith, List.length_zipWith, ihl hl, ihr hr, Nat.min_self]
  -- the arguments that are series have the length by induction; the window has none
  | call f args ih =>
    rw [Expr.eval_call]
    refine Builtin.length_apply ?_ ?_ _
    · rw [List.length_map]
      exact he.length_series
    · intro x hx
      obtain ⟨a, ha, rfl⟩ := List.mem_map.mp hx
      have ha := List.mem_of_mem_take ha
      exact ih a ha (he.of_mem_args ha)

end FactorStudy
