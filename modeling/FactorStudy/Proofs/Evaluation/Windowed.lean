import FactorStudy.Proofs.Double.Reach
import FactorStudy.Proofs.Evaluation.Accepted

/-!
# Calls with a window

The window of a call stands behind its series, as a number. A count is a double, up to far beyond the
longest window, so the call is computed with the window it was made with.
-/

namespace FactorStudy

open Number Double

/-! ## Counts as numbers -/

namespace Double

/-- A positive double is its magnitude. -/
theorem dyadic_of_pos {x : Float} (hx : isFinite x = true) (hpos : 0 < value x) :
    Decimal.isNegative x = false ∧ (Decimal.dyadic x).value = value x := by
  have hvalue := value_eq_dyadic hx
  have hdyadic : 0 ≤ (Decimal.dyadic x).value := by
    rw [Decimal.Dyadic.value]
    positivity
  cases hneg : Decimal.isNegative x with
  | true =>
    rw [signOf, hneg, if_pos rfl, signed] at hvalue
    linarith
  | false =>
    rw [signOf, hneg, if_neg (by decide), signed] at hvalue
    exact ⟨rfl, hvalue.symm⟩

/-- A count that is a double is read back from it. -/
theorem read_ofNat {n : ℕ} (hn : n < 2 ^ 53) : Decimal.isNegative (ofNat n) = false ∧
    (Decimal.dyadic (ofNat n)).value = n := by
  rcases Nat.eq_zero_or_pos n with rfl | hpos
  · decide +kernel
  · have hvalue : value (ofNat n) = n := value_ofNat hn
    have hcount : 0 < value (ofNat n) := by
      rw [hvalue]
      exact_mod_cast hpos
    rw [← hvalue]
    exact dyadic_of_pos (isFinite_ofNat (by omega)) hcount

theorem isWhole_ofNat {n : ℕ} (hn : n < 2 ^ 53) :
    Decimal.isWhole (ofNat n) = true ∧ Decimal.toInteger (ofNat n) = n := by
  obtain ⟨hneg, hvalue⟩ := read_ofNat hn
  have hfinite : (ofNat n : Float).isFinite = true := isFinite_ofNat (by omega)
  have hdef : (ofNat n : Float).isNaN = false := isNaN_of_isFinite hfinite
  have hden := Decimal.den_pos (Decimal.dyadic (ofNat n))
  have hden₀ : ((Decimal.dyadic (ofNat n)).den : ℚ) ≠ 0 := by exact_mod_cast Nat.ne_of_gt hden
  rw [Decimal.Dyadic.value_eq_div, div_eq_iff hden₀] at hvalue
  -- a count of fewer than 53 bits is the double's value, so its fraction is 0
  have hnum : (Decimal.dyadic (ofNat n)).num = n * (Decimal.dyadic (ofNat n)).den := by
    exact_mod_cast hvalue
  constructor
  · rw [Decimal.isWhole, hfinite, Bool.true_and, Decimal.Dyadic.isWhole, hnum, Nat.mul_mod_left]
    rfl
  · have hfloor : (Decimal.dyadic (ofNat n)).floor = n := by
      rw [Decimal.Dyadic.floor, hnum, Nat.mul_div_cancel _ hden]
    have htop : Nat.pow 2 63 = 9223372036854775808 := rfl
    rw [Decimal.toInteger, hdef, hneg, hfinite, hfloor]
    simp only [Bool.false_eq_true, if_false, if_true]
    omega

/-- A count that is too long for a double is read as one that is too long as well. -/
theorem two_pow_le_toInteger {n : ℕ} (hn : 2 ^ 53 ≤ n) :
    2 ^ 53 ≤ Decimal.toInteger (ofNat n) := by
  have hround := roundsTo_ofNat n
  obtain ⟨c, hc, hvalue⟩ := exists_value (n := 1) (by decide) (e := 53) (by decide) (by decide)
  rw [Nat.cast_one, one_mul, zpow_ofNat] at hvalue
  have hpow : (0 : ℚ) < 2 ^ 53 := by positivity
  have hlarge : (2 : ℚ) ^ 53 ≤ value (ofNat n) := by
    rw [← hvalue]
    refine hround.le_value (isNaN_of_isFinite hc) ?_
    rw [hvalue]
    exact_mod_cast hn
  have htop : Nat.pow 2 63 = 9223372036854775808 := rfl
  have hdef : (ofNat n : Float).isNaN = false := hround.1
  -- an infinite double is read as the greatest integer
  cases hfinite : isFinite (ofNat n : Float) with
  | false =>
    rw [eq_infinity hround.1 (hpow.le.trans hlarge) hfinite]
    decide +kernel
  | true =>
    have hread : (ofNat n : Float).isFinite = true := hfinite
    obtain ⟨hneg, hdyadic⟩ := dyadic_of_pos hfinite (hpow.trans_le hlarge)
    have hfloor := (floor_spec (Decimal.dyadic (ofNat n))).2
    rw [hdyadic] at hfloor
    have hcount : 2 ^ 53 < (Decimal.dyadic (ofNat n)).floor + 1 := by
      exact_mod_cast hlarge.trans_lt hfloor
    rw [Decimal.toInteger, hdef, hneg, hread]
    simp only [Bool.false_eq_true, if_false, if_true]
    omega

end Double

/-! ## Calls -/

namespace Expr

/-- A call with a window of `n` bars. -/
def windowed (f : Builtin) (args : List Expr) (n : ℕ) : Expr :=
  .call f (args ++ [.literal (ofNat n)])

theorem lt_of_le_maxWindow {n : ℕ} (hn : n ≤ maxWindow) : n < 2 ^ 53 :=
  hn.trans_lt (by decide)

/-- A count beyond the longest window is read as one that is beyond it. -/
theorem maxWindow_lt_toInteger {n : ℕ} (hn : maxWindow < n) :
    (maxWindow : ℤ) < Decimal.toInteger (ofNat n) := by
  rcases lt_or_ge n (2 ^ 53) with hshort | hlarge
  · rw [(isWhole_ofNat hshort).2]
    exact_mod_cast hn
  · -- it need not be read as itself, but it is not read as anything short
    have hhuge := two_pow_le_toInteger hlarge
    have hmax : (maxWindow : ℤ) < 2 ^ 53 := by decide
    omega

section Windowed

variable {f : Builtin} {args : List Expr} {n : ℕ} (hwindow : f.hasWindow = true)

include hwindow

theorem windowOf_windowed (hn : n < 2 ^ 53) :
    windowOf f (args ++ [.literal (ofNat n)]) = some (n : ℤ) := by
  rw [windowOf, if_pos hwindow, List.getLast?_concat]
  exact congrArg some (isWhole_ofNat hn).2

theorem windows_windowed (hn : n < 2 ^ 53) :
    (windowed f args n).windows = (f, (n : ℤ)) :: windowsAll args := by
  rw [windowed, windows, windowOf_windowed hwindow hn, windowsAll_eq_flatMap, List.flatMap_append,
    ← windowsAll_eq_flatMap, ← windowsAll_eq_flatMap]
  show (f, (n : ℤ)) :: (windowsAll args ++ []) = _
  rw [List.append_nil]

variable (hlen : args.length = f.seriesArity)

include hlen

/-- A call on accepted expressions is accepted with every window that its function allows. -/
theorem accepted_windowed (hn : n ≤ maxWindow) (hzero : n = 0 → f.allowsZeroWindow = true)
    (hargs : ∀ a ∈ args, a.Accepted) : (windowed f args n).Accepted := by
  have hshort := lt_of_le_maxWindow hn
  refine ⟨Grammar.wellFormed_call.mpr ⟨⟨?_, fun _ => ?_⟩, ?_⟩, fun g m hm => ?_⟩
  · rw [List.length_append, hlen, Builtin.arity, if_pos hwindow]
    rfl
  · rw [List.getLast?_concat]
    exact (isWhole_ofNat hshort).1
  · refine allWellFormed_iff.mpr fun a ha => ?_
    rcases List.mem_append.mp ha with ha | ha
    · exact (hargs a ha).wellFormed
    · rw [List.mem_singleton.mp ha]
      rfl
  · rw [windows_windowed hwindow hshort, List.mem_cons, mem_windowsAll] at hm
    -- the call's own window, or one inside its arguments
    rcases hm with hm | ⟨a, ha, hm⟩
    · obtain ⟨rfl, rfl⟩ := Prod.mk.inj hm
      rw [windowFault?, if_neg (by omega), if_neg, if_neg]
      · rw [not_lt]
        exact_mod_cast hn
      · exact fun h => h.2 (hzero (by omega))
    · exact (hargs a ha).windows g m hm

/-- A call is accepted with no other window. -/
theorem accepted_windowed_iff (hargs : ∀ a ∈ args, a.Accepted) : (windowed f args n).Accepted ↔
    n ≤ maxWindow ∧ (n = 0 → f.allowsZeroWindow = true) := by
  refine ⟨fun h => ?_, fun h => accepted_windowed hwindow hlen h.1 h.2 hargs⟩
  have hlast : windowOf f (args ++ [.literal (ofNat n)]) = some (Decimal.toInteger (ofNat n)) := by
    rw [windowOf, if_pos hwindow, List.getLast?_concat]
  have hfault : windowFault? f (Decimal.toInteger (ofNat n)) = none := by
    refine h.windows f _ ?_
    rw [windowed, windows, hlast]
    exact List.mem_append_left _ (List.mem_singleton.mpr rfl)
  rw [windowFault?] at hfault
  split at hfault
  · cases hfault
  split at hfault
  · cases hfault
  rename_i hzero
  split at hfault
  · cases hfault
  rename_i hlong
  rw [not_lt] at hlong
  have hmax : n ≤ maxWindow := by
    by_contra hover
    exact absurd (maxWindow_lt_toInteger (not_le.mp hover)) (not_lt.mpr hlong)
  rw [(isWhole_ofNat (lt_of_le_maxWindow hmax)).2] at hzero
  refine ⟨hmax, fun hn => ?_⟩
  by_contra hdeny
  exact hzero ⟨by exact_mod_cast hn, hdeny⟩

theorem eval_windowed (hn : n < 2 ^ 53) (p : Panel Float) :
    (windowed f args n).eval p = f.apply (args.map (·.eval p)) n := by
  rw [windowed, eval_call, List.take_left' hlen, windowLength, windowOf_windowed hwindow hn]
  rfl

end Windowed

end Expr

end FactorStudy
