import FactorStudy.Proofs.Grammar.Written

/-!
# Accepted expressions are safe to evaluate

An evaluation takes the arguments of a call by position and its window from the literal in the last
place, and has values at hand for when they are missing. `Expr.eval?` computes the same without
them. On an accepted expression it succeeds (`Expr.Accepted.eval?_eq`), so none of them is used.

The window of a call is the number written for it, as far as doubles can tell (`Written.Counts`): a
whole number is the window itself, and any other number is so close to the window that it was
rounded to it.
-/

namespace FactorStudy

/-! ## Evaluation without defaults -/

/-- A function on arguments some of which may be missing. -/
def Builtin.compute? (f : Builtin) (series : List (List Float)) (window : Option ℕ) :
    Option (List Float) := do
  let x ← series[0]?
  match f with
  | .shift f => return f.apply x (← window)
  | .rolling f => return f.apply x (← window)
  | .pairwise f => return f.apply x (← series[1]?) (← window)
  | .transform f => return f.apply x
  | .pointwise f => return f.apply x
  | .merge f => return f.apply x (← series[1]?)

/-- With as many series as it takes, and a window where it needs one, a function misses nothing. -/
theorem Builtin.compute?_eq {f : Builtin} {series : List (List Float)} {window : Option ℕ} {n : ℕ}
    (hlen : series.length = f.seriesArity) (hwindow : f.hasWindow = true → window = some n) :
    f.compute? series window = some (f.apply series n) := by
  -- the kind of the function says how many series are unpacked and whether a window is
  cases f with
  | shift f =>
    obtain ⟨x, rfl⟩ := List.length_eq_one_iff.mp hlen
    rw [hwindow rfl]
    rfl
  | rolling f =>
    obtain ⟨x, rfl⟩ := List.length_eq_one_iff.mp hlen
    rw [hwindow rfl]
    rfl
  | pairwise f =>
    obtain ⟨x, y, rfl⟩ := List.length_eq_two.mp hlen
    rw [hwindow rfl]
    rfl
  | transform f =>
    obtain ⟨x, rfl⟩ := List.length_eq_one_iff.mp hlen
    rfl
  | pointwise f =>
    obtain ⟨x, rfl⟩ := List.length_eq_one_iff.mp hlen
    rfl
  | merge f =>
    obtain ⟨x, y, rfl⟩ := List.length_eq_two.mp hlen
    rfl

namespace Expr

mutual

/-- The series of an expression, if no call misses an argument and every window is a count. -/
def eval? (p : Panel Float) : Expr → Option (List Float)
  | literal v => some (Series.clean (List.replicate p.size v))
  | column c => some (Series.clean (p.column c))
  | neg e => (e.eval? p).map Series.negate
  | binary op l r => do return op.apply (← l.eval? p) (← r.eval? p)
  | call f args => do
    let series ← ((evalAll? p args).take f.seriesArity).mapM id
    f.compute? series ((windowOf f args).bind Int.toNat?)

/-- The series of a list of expressions. -/
def evalAll? (p : Panel Float) : List Expr → List (Option (List Float))
  | [] => []
  | e :: es => e.eval? p :: evalAll? p es

end

theorem evalAll?_eq_map (p : Panel Float) (es : List Expr) :
    evalAll? p es = es.map (·.eval? p) := by
  induction es with
  | nil => rfl
  | cons e es ih => rw [evalAll?, ih, List.map_cons]

theorem mapM_id_map_some {β : Type} (xs : List β) : (xs.map some).mapM id = some xs := by
  have hsome : xs.mapM (id ∘ some) = some (xs.map id) := mapM_eq_some fun _ _ => rfl
  rw [List.mapM_map, hsome, List.map_id]

/-- An accepted expression is evaluated without falling back on a default. -/
theorem Accepted.eval?_eq (p : Panel Float) {e : Expr} (he : e.Accepted) :
    e.eval? p = some (e.eval p) := by
  induction e using Expr.induction with
  | literal v => rfl
  | column c => rfl
  | neg e ih =>
    rw [eval?, ih he.of_neg]
    rfl
  | binary op l r ihl ihr =>
    obtain ⟨hl, hr⟩ := he.of_binary
    rw [eval?, ihl hl, ihr hr]
    rfl
  | call f args ih =>
    -- the window is the last argument and is not evaluated: only the series before it are needed
    have hseries : ((evalAll? p args).take f.seriesArity).mapM id =
        some ((args.take f.seriesArity).map (·.eval p)) := by
      have hargs : args.map (·.eval? p) = (args.map (·.eval p)).map some := by
        rw [List.map_map]
        exact List.map_congr_left fun a ha => ih a ha (he.of_mem_args ha)
      rw [evalAll?_eq_map, hargs, ← List.map_take, mapM_id_map_some, List.map_take]
    rw [eval?, hseries, eval_call]
    refine Builtin.compute?_eq ?_ fun hf => ?_
    · rw [List.length_map]
      exact he.length_series
    · rw [(he.windowOf_eq hf).1]
      rfl

end Expr

/-! ## The number that is written for a window -/

namespace Written

/-- The number that is written, with its sign. -/
def value (minus : Bool) (numeral : Decimal.Numeral) : ℚ :=
  if minus then -numeral.value else numeral.value

/-- A number is read as the count `n`. -/
structure Counts (minus : Bool) (numeral : Decimal.Numeral) (n : ℕ) : Prop where
  /-- The double that it is read as is a whole number, and its value is `n`. -/
  finite : (double minus numeral).isFinite = true
  value_eq : (Decimal.dyadic (double minus numeral)).value = n
  /-- A minus stands only in front of what is read as 0. -/
  sign : minus = true → n = 0
  /-- If it is written as a whole number, then as `n`. -/
  whole : ∀ k : ℤ, value minus numeral = k → k = n
  /-- Otherwise it is written as a number that rounding does not tell from `n`. -/
  close : |value minus numeral - n| < 1 / 2 ^ 36

/-- A whole number that is closer to a count than 1 is the count. -/
theorem Counts.of_close {minus : Bool} {numeral : Decimal.Numeral} {n : ℕ}
    (finite : (double minus numeral).isFinite = true)
    (value_eq : (Decimal.dyadic (double minus numeral)).value = n) (sign : minus = true → n = 0)
    (close : |value minus numeral - n| < 1 / 2 ^ 36) : Counts minus numeral n := by
  refine ⟨finite, value_eq, sign, fun k hk => ?_, close⟩
  -- both are integers, so a distance below 1 is none
  rw [hk, abs_lt] at close
  have hupper : (k : ℚ) < (n + 1 : ℤ) := by
    push_cast
    linarith
  have hlower : ((n - 1 : ℤ) : ℚ) < k := by
    push_cast
    linarith
  have hupper := Int.cast_lt.mp hupper
  have hlower := Int.cast_lt.mp hlower
  omega

theorem counts_of_toInteger {minus : Bool} {numeral : Decimal.Numeral} {n : ℕ}
    (hn : n ≤ Expr.maxWindow) (hwhole : Decimal.isWhole (double minus numeral) = true)
    (h : Decimal.toInteger (double minus numeral) = n) : Counts minus numeral n := by
  have hmax : n ≤ 100000 := hn
  obtain ⟨hfinite, -⟩ := Bool.and_eq_true_iff.mp hwhole
  obtain ⟨hvalue, hsign⟩ := Decimal.value_of_toInteger hwhole (by omega) h
  cases minus with
  | false =>
    exact .of_close hfinite hvalue Bool.noConfusion
      (Decimal.abs_sub_lt_of_nearest (by omega) hfinite hvalue)
  | true =>
    -- what is read is not above 0, so the count is 0
    have hread : numeral.toFloat.isFinite = true := (Double.isFinite_neg _).symm.trans hfinite
    have hzero : n = 0 := hsign (Decimal.isNegative_neg_nearest hread)
    have hmagnitude : (Decimal.dyadic numeral.toFloat).value = n :=
      (Double.value_dyadic_neg hread).symm.trans hvalue
    refine .of_close hfinite hvalue (fun _ => hzero) ?_
    have hclose := Decimal.abs_sub_lt_of_nearest (by omega) hread hmagnitude
    rw [hzero, Nat.cast_zero, sub_zero] at hclose ⊢
    rwa [value, if_pos rfl, abs_neg]

/-- A call can be evaluated as it is written, with the window `n` if its function takes one. -/
structure Safe (f : Builtin) (args : List Written) (n : ℕ) : Prop where
  arity : args.length = f.arity
  /-- The window is within the limits, and is the number that is written in the last place. -/
  window : f.hasWindow = true → n ≤ Expr.maxWindow ∧ (n = 0 → f.allowsZeroWindow = true) ∧
    ∃ minus numeral, args.getLast? = some (.number minus numeral) ∧ Counts minus numeral n
  /-- The function is computed with this window, from all the series that it takes. -/
  eval_eq : (args.take f.seriesArity).length = f.seriesArity ∧
    ∀ p, (call f args).tree.eval p = f.apply ((args.take f.seriesArity).map (·.tree.eval p)) n

theorem exists_safe {f : Builtin} {args : List Written} (h : (call f args).tree.Accepted) :
    ∃ n, Safe f args n := by
  have htree : (call f args).tree = .call f (args.map tree) := by
    rw [tree, treeAll_eq_map]
  rw [htree] at h
  have hlen : args.length = f.arity := (List.length_map _).symm.trans h.length_args
  have hseries : (args.take f.seriesArity).length = f.seriesArity := by
    rw [List.length_take, hlen, Builtin.arity]
    omega
  refine ⟨Expr.windowLength f (args.map tree), hlen, fun hf => ?_, hseries, fun p => ?_⟩
  · obtain ⟨hwindow, hzero, hmax⟩ := h.windowOf_eq hf
    refine ⟨hmax, hzero, ?_⟩
    obtain ⟨⟨-, hlast⟩, -⟩ := Grammar.wellFormed_call.mp h.wellFormed
    have hwhole := hlast hf
    rw [Expr.windowOf, if_pos hf, List.getLast?_map] at hwindow
    rw [List.getLast?_map] at hwhole
    -- the window is the number that was written, and reading it as an integer cuts no part off
    cases hargs : args.getLast? with
    | none =>
      rw [hargs] at hwhole
      cases hwhole
    | some w =>
      rw [hargs] at hwindow hwhole
      cases w with
      | number minus numeral =>
        exact ⟨minus, numeral, rfl, counts_of_toInteger hmax hwhole (Option.some.inj hwindow)⟩
      | _ => cases hwhole
  · rw [htree, Expr.eval_call, ← List.map_take, List.map_map]
    rfl

end Written

namespace Expr

/-- **Accepted texts can be evaluated.** An accepted text can be evaluated on every panel as it is
written: every call in it is computed from its arguments and with the window that is written for it,
as far as doubles can tell.

The evaluator that can fail, `eval?`, takes apart the arguments and the window of each call as the
program does. It is the total one on accepted trees. What is written is kept in the derivation,
since the tree has only the doubles that numerals are rounded to. -/
theorem check_safe {text : String} {e : Expr} (h : check text = .ok e) :
    ∃ (d : Grammar.Derivation maxDepth) (w : Written), d.text = text.toList ∧
      d.written = some w ∧ w.tree = e ∧
      (∀ f args, Written.call f args ∈ w.nodes → ∃ n, Written.Safe f args n) ∧
      ∀ p, e.eval? p = some (e.eval p) := by
  obtain ⟨hparse, -⟩ := check_eq_ok_iff.mp h
  obtain ⟨d, htext, htree⟩ := Grammar.whole_sound 0 (Grammar.parse_eq_ok_iff.mp hparse)
  obtain ⟨w, hwritten, rfl⟩ := d.exists_written htree
  have he := accepted_of_check h
  refine ⟨d, w, htext, hwritten, rfl, fun f args hcall => ?_, fun p => he.eval?_eq p⟩
  have hnode : (Written.call f args).tree ∈ w.tree.nodes := by
    rw [w.nodes_tree]
    exact List.mem_map_of_mem hcall
  exact Written.exists_safe (he.of_mem_nodes hnode)

/-- A number just above 2, which no double tells from it. -/
def aboveTwo : Grammar.NumberToken where
  whole := ['2']
  fraction := some "00000000000000000001".toList
  exponent := none
  whole_digit := List.all_eq_true.mp rfl
  fraction_digit := List.all_eq_true.mp rfl
  digit := Or.inl (List.cons_ne_nil _ _)

/-- A call with this number for a window. -/
def meanAboveTwo : Grammar.Derivation 2 where
  body := Grammar.Primary.argument Grammar.Gap.nil
    (.call ⟨'t', "s_mean".toList, Or.inl rfl, List.all_eq_true.mp rfl⟩ Grammar.Gap.nil
      (.some (Grammar.Primary.argument Grammar.Gap.nil
          (.column ⟨'c', "lose".toList, Or.inl rfl, List.all_eq_true.mp rfl⟩))
        [Grammar.Primary.moreArgument (.number aboveTwo)] Grammar.Gap.nil))
  trailing := Grammar.Gap.nil

theorem check_safe_meanAboveTwo :
    check "ts_mean(close, 2.00000000000000000001)" =
        .ok (.call (.rolling .mean) [.column .close, .literal 2]) ∧
      2 < aboveTwo.numeral.value ∧
      ∃ (d : Grammar.Derivation maxDepth) (w : Written),
        d.text = "ts_mean(close, 2.00000000000000000001)".toList ∧ d.written = some w ∧
        w.tree = .call (.rolling .mean) [.column .close, .literal 2] ∧
        (∀ f args, Written.call f args ∈ w.nodes → ∃ n, Written.Safe f args n) ∧
        ∀ p, (call (.rolling .mean) [column .close, literal 2]).eval? p =
          some ((call (.rolling .mean) [column .close, literal 2]).eval p) := by
  have hparse : parse "ts_mean(close, 2.00000000000000000001)" =
      .ok (.call (.rolling .mean) [.column .close, .literal 2]) :=
    Grammar.parse_of_derivation meanAboveTwo (by decide +kernel) rfl (by decide) (by decide)
  have hcheck := check_eq_ok_iff.mpr ⟨hparse, rfl⟩
  have hdigits : Decimal.ofDigits (aboveTwo.numeral.whole ++ aboveTwo.numeral.fraction) =
      200000000000000000001 := by
    decide +kernel
  have habove : 2 < aboveTwo.numeral.value := by
    rw [Decimal.Numeral.value, hdigits]
    show (2 : ℚ) < _ * 10 ^ (-20 : ℤ)
    norm_num
  exact ⟨hcheck, habove, check_safe hcheck⟩

end Expr

end FactorStudy
