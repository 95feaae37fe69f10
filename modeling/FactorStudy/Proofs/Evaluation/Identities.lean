import FactorStudy.Proofs.Backtest.Returns
import FactorStudy.Proofs.Evaluation.Clean
import FactorStudy.Proofs.Series.Identities

/-!
# Identities of the language

An expression that calls a function described by others can be written without it, and nothing
changes (`identities`): the two are accepted alike, fit the same panels, stop the program on the same
ones and have the same series, in spite of overflow, of bases that are 0 and of undefined entries.

The series are the same because the functions are (`Proofs/Series/Identities.lean`), except that a
minus in an expression is a function too, which takes out infinities. It has none to take out, as no
expression has infinite values (`Accepted.clean_eval`).
-/

namespace FactorStudy

open Number Double

theorem Series.negate_eq {x : List Float} (hx : Clean x) : negate x = x.map (- ·) := by
  refine List.map_congr_left fun v hv => ?_
  rcases hx v hv with hfinite | rfl
  · rw [strict, isNaN_of_isFinite hfinite, if_neg Bool.false_ne_true, orNaN_neg,
      orNaN_eq_self hfinite]
  · rfl

namespace Expr

/-! ## Lengths of windows -/

/-- The lengths of the windows in an expression. -/
def sizes (e : Expr) : Set ℤ := {m | ∃ f, (f, m) ∈ e.windows}

@[simp] theorem sizes_literal (v : Float) : sizes (literal v) = ∅ := by
  simp [sizes, windows]

@[simp] theorem sizes_binary (op : BinaryOp) (l r : Expr) :
    sizes (binary op l r) = sizes l ∪ sizes r := by
  ext m
  simp [sizes, windows, exists_or]

/-- What a strict evaluation asks for. -/
theorem evaluate_strict_eq_ok_iff {e : Expr} (he : e.Accepted) {p : Panel Float}
    {s : FactorSeries Float} :
    e.evaluate .strict p = .ok s ↔ (∀ m ∈ sizes e, m ≤ p.size) ∧ .ofValues (e.eval p) = s := by
  -- the check of the windows against the panel is what strict adds
  have hfits : (∀ m ∈ sizes e, m ≤ p.size) ↔ e.checkPanelLength p.size = .ok () := by
    rw [checkPanelLength_eq_ok_iff]
    exact ⟨fun h f m hm => h m ⟨f, hm⟩, fun h m ⟨f, hm⟩ => h f m hm⟩
  rw [hfits, evaluate, checkWindows_eq_ok_iff.mpr he.windows]
  cases e.checkPanelLength p.size with
  | ok _ =>
    show Except.ok _ = Except.ok s ↔ _
    rw [Except.ok.injEq]
    exact ⟨fun h => ⟨rfl, h⟩, And.right⟩
  | error err =>
    constructor
    · intro h
      cases h
    · rintro ⟨h, -⟩
      cases h

/-- Two expressions for one series: where the one can be used so can the other, with the same
values. -/
structure SameSeries (p : Panel Float) (a b : Expr) : Prop where
  accepted : a.Accepted ∧ b.Accepted
  /-- Inside an expression. -/
  eval_eq : a.eval p = b.eval p
  /-- As a factor. -/
  lenient : ∃ s, a.evaluate .lenient p = .ok s ∧ b.evaluate .lenient p = .ok s
  /-- As a factor, when every window has to fit the panel. -/
  strict : ∀ s, a.evaluate .strict p = .ok s ↔ b.evaluate .strict p = .ok s
  /-- Neither stops the program where the other does not. -/
  aborts : a.aborts p = b.aborts p

/-! ## The parts of the identities -/

theorem accepted_literal (v : Float) : (literal v).Accepted := ⟨rfl, nofun⟩

theorem Accepted.binary {l r : Expr} (hl : l.Accepted) (hr : r.Accepted) (op : BinaryOp) :
    (binary op l r).Accepted := by
  refine ⟨?_, fun f n hn => ?_⟩
  · rw [Expr.wellFormed, hl.wellFormed, hr.wellFormed]
    rfl
  · exact (List.mem_append.mp hn).elim (hl.windows f n) (hr.windows f n)

theorem abortsAll_eq_map (p : Panel Float) (es : List Expr) :
    abortsAll p es = es.map (·.aborts p) := by
  induction es with
  | nil => rfl
  | cons e es ih => rw [abortsAll, ih, List.map_cons]

/-- A number is a series with that value at every bar. -/
theorem eval_literal {v : Float} (hv : Number.isFinite v = true) (p : Panel Float) :
    (literal v).eval p = List.replicate p.size v := by
  rw [eval, Series.clean, List.map_replicate, orNaN_eq_self hv]

/-- A minus before an expression, as it is read: a minus before a number belongs to the number. -/
def minus : Expr → Expr
  | literal v => literal (-v)
  | e => neg e

@[simp] theorem sizes_minus (x : Expr) : sizes (minus x) = sizes x := by
  cases x with
  | literal v => rw [minus, sizes_literal, sizes_literal]
  | _ => rfl

theorem aborts_minus (x : Expr) (p : Panel Float) : (minus x).aborts p = x.aborts p := by
  cases x with
  | literal v => rfl
  | _ => rfl

theorem Accepted.minus {x : Expr} (hx : x.Accepted) : (minus x).Accepted := by
  cases x with
  | literal v => exact accepted_literal (-v)
  | _ => exact ⟨hx.wellFormed, hx.windows⟩

theorem eval_minus {x : Expr} (hx : x.Accepted) (p : Panel Float) :
    (minus x).eval p = (x.eval p).map (- ·) := by
  rw [← Series.negate_eq (hx.clean_eval p)]
  cases x with
  | literal v =>
    -- the number has its infinities taken out behind the minus, the series in front of it
    rw [Series.negate_eq (hx.clean_eval p), minus, eval, eval, Series.clean, Series.clean,
      List.map_replicate, List.map_replicate, List.map_replicate, Series.orNaN_neg]
  | _ => rfl

section Windowed

variable {f : Builtin} {args : List Expr} {n : ℕ} (hwindow : f.hasWindow = true)

include hwindow

theorem sizes_windowed (hn : n < 2 ^ 53) :
    sizes (windowed f args n) = insert (n : ℤ) (⋃ a ∈ args, sizes a) := by
  ext m
  simp only [Set.mem_insert_iff, Set.mem_iUnion]
  constructor
  · rintro ⟨g, hg⟩
    rw [windows_windowed hwindow hn, List.mem_cons, mem_windowsAll] at hg
    rcases hg with hg | ⟨a, ha, hg⟩
    · exact Or.inl (Prod.mk.inj hg).2
    · exact Or.inr ⟨a, ha, g, hg⟩
  · rintro (rfl | ⟨a, ha, g, hg⟩)
    · refine ⟨f, ?_⟩
      rw [windows_windowed hwindow hn]
      exact List.mem_cons_self
    · refine ⟨g, ?_⟩
      rw [windows_windowed hwindow hn]
      exact List.mem_cons_of_mem _ (mem_windowsAll.mpr ⟨a, ha, hg⟩)

theorem aborts_windowed (hlen : args.length = f.seriesArity) (p : Panel Float) :
    (windowed f args n).aborts p = args.any (·.aborts p) := by
  -- only a function of the whole series stops the program, and it has no window
  have hown : ∀ series : List (List Float), f.aborts series = false := by
    intro series
    cases f with
    | transform t => cases hwindow
    | _ => rfl
  rw [windowed, aborts, abortsAll_eq_map, ← List.map_take, List.take_left' hlen, hown, Bool.or_false,
    List.any_map]
  rfl

end Windowed

/-! ## Looking at an expression through windows -/

/-- An expression that shows `x` through windows of `n` bars, and nothing else, as the series `s`. -/
structure Shows (p : Panel Float) (x : Expr) (n : ℕ) (e : Expr) (s : List Float) : Prop where
  accepted : e.Accepted
  sizes : e.sizes = insert (n : ℤ) x.sizes
  aborts : e.aborts p = x.aborts p
  eval : e.eval p = s

namespace Shows

variable {p : Panel Float} {x e e' : Expr} {n : ℕ} {s s' : List Float}

theorem of_eq (h : Shows p x n e s) (hs : s' = s) : Shows p x n e s' := hs.symm ▸ h

theorem same (h : Shows p x n e s) (h' : Shows p x n e' s) : SameSeries p e e' := by
  have heval : e.eval p = e'.eval p := h.eval.trans h'.eval.symm
  have hsizes : e.sizes = e'.sizes := h.sizes.trans h'.sizes.symm
  refine ⟨⟨h.accepted, h'.accepted⟩, heval, ⟨.ofValues (e.eval p), ?_, ?_⟩, fun s => ?_,
    h.aborts.trans h'.aborts.symm⟩
  · exact evaluate_lenient (checkWindows_eq_ok_iff.mpr h.accepted.windows) p
  · rw [heval]
    exact evaluate_lenient (checkWindows_eq_ok_iff.mpr h'.accepted.windows) p
  · rw [evaluate_strict_eq_ok_iff h.accepted, evaluate_strict_eq_ok_iff h'.accepted, hsizes, heval]

/-- A call on the expression, once or more than once. -/
theorem call (hx : x.Accepted) {f : Builtin} {args : List Expr} (hwindow : f.hasWindow = true)
    (hlen : args.length = f.seriesArity) (hargs : ∀ a ∈ args, a = x) (hn : n ≤ maxWindow)
    (hzero : n = 0 → f.allowsZeroWindow = true) :
    Shows p x n (windowed f args n) (f.apply (args.map (·.eval p)) n) := by
  have hmem : x ∈ args := by
    obtain ⟨a, ha⟩ : ∃ a, a ∈ args := by
      refine List.exists_mem_of_length_pos ?_
      rw [hlen]
      exact f.seriesArity_pos
    exact hargs a ha ▸ ha
  have hshort := lt_of_le_maxWindow hn
  refine ⟨?_, ?_, ?_, eval_windowed hwindow hlen hshort p⟩
  · exact accepted_windowed hwindow hlen hn hzero fun a ha => (hargs a ha).symm ▸ hx
  · -- the arguments are all the same expression, so they ask for nothing new
    rw [sizes_windowed hwindow hshort]
    congr 1
    ext m
    simp only [Set.mem_iUnion]
    exact ⟨fun ⟨a, ha, hm⟩ => hargs a ha ▸ hm, fun hm => ⟨x, hmem, hm⟩⟩
  · rw [aborts_windowed hwindow hlen, Bool.eq_iff_iff, List.any_eq_true]
    exact ⟨fun ⟨a, ha, hstop⟩ => hargs a ha ▸ hstop, fun hstop => ⟨x, hmem, hstop⟩⟩

/-- The expression itself beside what shows it. -/
theorem beside (hx : x.Accepted) (h : Shows p x n e s) (op : BinaryOp) :
    Shows p x n (.binary op x e) (op.apply (x.eval p) s) := by
  refine ⟨hx.binary h.accepted op, ?_, ?_, ?_⟩
  · rw [sizes_binary, h.sizes, Set.union_insert, Set.union_self]
  · rw [Expr.aborts, h.aborts, Bool.or_self]
  · rw [Expr.eval, h.eval]

/-- Two that show the expression. -/
theorem binary (h : Shows p x n e s) (h' : Shows p x n e' s') (op : BinaryOp) :
    Shows p x n (.binary op e e') (op.apply s s') := by
  refine ⟨h.accepted.binary h'.accepted op, ?_, ?_, ?_⟩
  · rw [sizes_binary, h.sizes, h'.sizes, Set.union_self]
  · rw [Expr.aborts, h.aborts, h'.aborts, Bool.or_self]
  · rw [Expr.eval, h.eval, h'.eval]

/-- A number beside what shows the expression. -/
theorem number (h : Shows p x n e s) (op : BinaryOp) {v : Float} (hv : Number.isFinite v = true) :
    Shows p x n (.binary op e (.literal v)) (op.apply s (List.replicate s.length v)) := by
  refine ⟨h.accepted.binary (accepted_literal v) op, ?_, ?_, ?_⟩
  · rw [sizes_binary, sizes_literal, Set.union_empty, h.sizes]
  · rw [Expr.aborts, Expr.aborts, Bool.or_false, h.aborts]
  · rw [Expr.eval, eval_literal hv, ← h.eval, h.accepted.length_eval]

/-- What shows the opposite of the expression. -/
theorem of_minus (h : Shows p (minus x) n e s) : Shows p x n e s :=
  ⟨h.accepted, h.sizes.trans (by rw [sizes_minus]), h.aborts.trans (aborts_minus x p), h.eval⟩

/-- A minus before what shows the expression. -/
theorem neg (h : Shows p x n e s) (he : e.isLiteral = false) :
    Shows p x n (.neg e) (s.map (- ·)) := by
  refine ⟨⟨?_, h.accepted.windows⟩, h.sizes, h.aborts, ?_⟩
  · rw [Expr.wellFormed, he, h.accepted.wellFormed]
    rfl
  · rw [Expr.eval, ← h.eval, Series.negate_eq (h.accepted.clean_eval p)]

end Shows

/-! ## The identities -/

/-- What can be written in place of some functions of `x`, with windows of `n` bars. -/
structure Identities (x : Expr) (p : Panel Float) : Prop where
  /-- `ts_delta(x, n)` and `x - ts_delay(x, n)`. -/
  delta : ∀ n ≤ maxWindow, SameSeries p (windowed (.shift .delta) [x] n)
    (.binary .sub x (windowed (.shift .delay) [x] n))
  /-- `ts_returns(x, n)` and `x / ts_delay(x, n) - 1`. -/
  returns : ∀ n ≤ maxWindow, SameSeries p (windowed (.shift .returns) [x] n)
    (.binary .sub (.binary .div x (windowed (.shift .delay) [x] n)) (.literal 1))
  /-- `ts_pct_change(x, n)` and `x / ts_delay(x, n) - 1`. -/
  pctChange : ∀ n ≤ maxWindow, SameSeries p (windowed (.shift .pctChange) [x] n)
    (.binary .sub (.binary .div x (windowed (.shift .delay) [x] n)) (.literal 1))
  /-- `ts_mean(x, n)` and `ts_sum(x, n) / n`. -/
  mean : ∀ n, 1 ≤ n → n ≤ maxWindow → SameSeries p (windowed (.rolling .mean) [x] n)
    (.binary .div (windowed (.rolling .sum) [x] n) (.literal (ofNat n)))
  /-- `ts_var(x, n)` and `ts_cov(x, x, n)`. -/
  var : ∀ n, 1 ≤ n → n ≤ maxWindow →
    SameSeries p (windowed (.rolling .var) [x] n) (windowed (.pairwise .cov) [x, x] n)
  /-- `ts_argmin(x, n)` and `ts_argmax(-x, n)`. -/
  argmin : ∀ n, 1 ≤ n → n ≤ maxWindow →
    SameSeries p (windowed (.rolling .argmin) [x] n) (windowed (.rolling .argmax) [minus x] n)
  /-- `ts_max(x, n)` and `-ts_min(-x, n)`. -/
  max : ∀ n, 1 ≤ n → n ≤ maxWindow → SameSeries p (windowed (.rolling .max) [x] n)
    (.neg (windowed (.rolling .min) [minus x] n))

/-- **Identities.** Changes are differences from the delayed series, and returns and relative
changes are quotients by it less 1; a mean is a sum over the number of bars, a variance is the
covariance of a series with itself, the place of the least value is that of the greatest under the
opposite sign, and the greatest value is the opposite of the least there. They hold of every
accepted expression, and so of every expression inside one, on every panel.

To be the same means to be accepted with the same windows and to have the same values at every bar,
the undefined ones included. Where the two sides of an identity clean infinite values at different
steps, it is shown that this makes no difference. -/
theorem identities {x : Expr} (hx : x.Accepted) (p : Panel Float) : Identities x p := by
  have hall : ∀ {y a : Expr}, a ∈ [y] → a = y := List.mem_singleton.mp
  -- each of the calls in the identities is a node over `x` with a window in range
  have hshift : ∀ {n : ℕ} (f : Shift), n ≤ maxWindow →
      Shows p x n (windowed (.shift f) [x] n) (f.apply (x.eval p) n) :=
    fun f hn => .call hx rfl rfl (fun _ => hall) hn fun _ => rfl
  have hrolling : ∀ {n : ℕ} {y : Expr} (f : Rolling), y.Accepted → 1 ≤ n → n ≤ maxWindow →
      Shows p y n (windowed (.rolling f) [y] n) (f.apply (y.eval p) n) :=
    fun f hy h1 hn => .call hy rfl rfl (fun _ => hall) hn (by omega)
  have hreturns : ∀ n ≤ maxWindow, Shows p x n
      (.binary .sub (.binary .div x (windowed (.shift .delay) [x] n)) (.literal 1))
      (Series.returns (x.eval p) n) := by
    intro n hn
    refine (((hshift .delay hn).beside hx .div).number .sub rfl).of_eq ?_
    exact Series.returns_eq (x.eval p) n
  -- seven pairs; each is one identity of series between two nodes with the same bars
  refine ⟨fun n hn => ?_, fun n hn => ?_, fun n hn => ?_, fun n h1 hn => ?_, fun n h1 hn => ?_,
    fun n h1 hn => ?_, fun n h1 hn => ?_⟩
  · refine (hshift .delta hn).same (((hshift .delay hn).beside hx .sub).of_eq ?_)
    exact Series.delta_eq (x.eval p) n
  · exact (hshift .returns hn).same (hreturns n hn)
  · exact (hshift .pctChange hn).same (hreturns n hn)
  · have hmax : n ≤ 100000 := hn
    have hcount : Number.isFinite (ofNat n : Float) = true := isFinite_ofNat (by omega)
    refine (hrolling .mean hx h1 hn).same (((hrolling .sum hx h1 hn).number .div hcount).of_eq ?_)
    exact Series.mean_eq (x.eval p) n
  · have hcov : Shows p x n (windowed (.pairwise .cov) [x, x] n)
        (Pairwise.cov.apply (x.eval p) (x.eval p) n) :=
      .call hx rfl rfl (by simp) hn (by omega)
    exact (hrolling .var hx h1 hn).same (hcov.of_eq (Series.var_eq (x.eval p) n))
  · refine (hrolling .argmin hx h1 hn).same ((hrolling .argmax hx.minus h1 hn).of_minus.of_eq ?_)
    rw [eval_minus hx]
    exact Series.argmin_eq (x.eval p) n
  · refine (hrolling .max hx h1 hn).same (((hrolling .min hx.minus h1 hn).of_minus.neg rfl).of_eq ?_)
    rw [eval_minus hx]
    exact Series.max_eq (x.eval p) n

/-- A relative change, on a panel in which it starts from an infinite price. -/
theorem identities_closeReturns :
    check (closeReturns 1).render = .ok (closeReturns 1) ∧ (closeReturns 1).Accepted ∧
      Identities (closeReturns 1) fallFromInfinity := by
  have hcheck : check (closeReturns 1).render = .ok (closeReturns 1) :=
    check_closeReturns (by decide)
  have haccepted := accepted_of_check hcheck
  exact ⟨hcheck, haccepted, identities haccepted fallFromInfinity⟩

end Expr

end FactorStudy
