import FactorStudy.Proofs.Double.Reach
import FactorStudy.Proofs.Backtest.Course
import FactorStudy.Proofs.Evaluation.Definedness

/-!
# Equal values

Equal values have no spread, so they have no standard scores and no correlation. The program finds
this out from a variance that is computed, and the mean of equal values, a sum that was rounded at
every step and divided, need not be the value: the mean of three times `0.1` is
`0.10000000000000002`. The deviations are then all the same error, and what counts is whether its
square is lost (`SeenAsFlat`). If it is not, the error is divided by a spread of about its own size,
and the equal values have standard scores and correlations after all (`flat_outcome`).

Values of few digits are summed without rounding and are always seen as flat
(`seenAsFlat_of_short`).
-/

namespace FactorStudy

open Number Double

namespace Series

/-! ## Equal values -/

/-- How far `n` equal values lie above their mean, as sum and quotient are rounded. -/
def flatError (c : Float) (n : ℕ) : Float := c - average (List.replicate n c)

/-- Whether the spread of `n` equal values is taken as none: the error of their mean is 0, or too
small to have a square. A sum that is too large for a double has no spread either. -/
def SeenAsFlat (c : Float) (n : ℕ) : Prop :=
  isFinite (flatError c n) = true → (flatError c n * flatError c n == 0) = true

instance (c : Float) (n : ℕ) : Decidable (SeenAsFlat c n) :=
  inferInstanceAs (Decidable (_ → _))

/-- The standard deviation of `n` equal values. -/
def flatSpread (c : Float) (n : ℕ) : Float :=
  sqrt (sum (List.replicate n (flatError c n * flatError c n)) / ofNat (n - 1))

variable {c : Float} {n : ℕ}

theorem mean?_replicate (hn : 2 ≤ n) :
    mean? (List.replicate n c) = some (average (List.replicate n c)) := by
  have hne : (List.replicate n c).isEmpty = false := by
    rw [List.isEmpty_eq_false_iff, ne_eq, List.replicate_eq_nil_iff]
    omega
  rw [mean?, hne, if_neg (by decide)]

theorem std?_replicate (hn : 2 ≤ n) : std? (List.replicate n c) = some (flatSpread c n) := by
  have hlen : ¬ (List.replicate n c).length < 2 := by
    rw [List.length_replicate]
    omega
  rw [std?, variance?, if_neg hlen, Option.map_some, List.map_replicate, List.length_replicate]
  rfl

theorem four_zpow (k : ℤ) : (4 : ℚ) ^ k = 2 ^ (2 * k) := by
  rw [show (4 : ℚ) = 2 ^ (2 : ℤ) by norm_num, ← zpow_mul]

/-- An error that is not lost in squaring is not too large for the spread that its square gives. -/
theorem exists_scale {d : Float} (hd : isFinite d = true) (hne : (d * d == 0) = false) :
    ∃ k : ℤ, -537 ≤ k ∧ k ≤ 0 ∧ Reaches (d * d) (4 ^ k) ∧
      ∃ b, isFinite b = true ∧ |value d| ≤ value b * 2 ^ k := by
  have hsquare := roundsTo_mul hd hd
  rcases le_or_gt 1 |value d| with hlarge | hsmall
  · -- a large error has a square that is larger still
    refine ⟨0, by decide, by decide, ?_, ?_⟩
    · rw [zpow_zero, ← value_one]
      refine hsquare.reaches rfl ?_
      rw [value_one, ← abs_mul_abs_self]
      nlinarith
    · rw [zpow_zero]
      rcases le_total 0 (value d) with hpos | hneg
      · exact ⟨d, hd, by rw [mul_one, abs_of_nonneg hpos]⟩
      · exact ⟨-d, (isFinite_neg d).trans hd, by rw [mul_one, value_neg, abs_of_nonpos hneg]⟩
  · -- a small one has a square of at least a unit, since it is not 0
    refine ⟨-537, by decide, by decide, ?_, ?_⟩
    · rw [four_zpow]
      exact reaches_unit hsquare.1 (hsquare.nonneg (mul_self_nonneg _)) hne
    · obtain ⟨b, hb, hvalue⟩ := exists_value (n := 1) (by decide) (e := 537) (by decide) (by decide)
      refine ⟨b, hb, ?_⟩
      rw [hvalue, Nat.cast_one, one_mul, ← zpow_add₀ two_ne_zero]
      exact hsmall.le

/-- A sum of squares of the error. -/
theorem reaches_sum_squares {s start : Float} {k : ℤ} (hlow : -537 ≤ k) (hhigh : k ≤ 0)
    (hs : Reaches s (4 ^ k)) (hn : n < 2 ^ 53) (hstart : Reaches start 0) :
    Reaches ((List.replicate n s).foldl (· + ·) start) (n * 4 ^ k) := by
  rw [four_zpow] at hs ⊢
  have hstart' : Reaches start ((0 : ℕ) * 2 ^ (2 * k)) := by
    rwa [Nat.cast_zero, zero_mul]
  have h := Reaches.foldl_replicate (by omega) (by omega) hs (n := n) (by omega) hstart'
  rwa [Nat.zero_add] at h

/-- The spread of values that are not seen as flat. -/
theorem reaches_flatSpread {k : ℤ} (hn : 2 ≤ n) (hshort : n < 2 ^ 53) (hlow : -537 ≤ k)
    (hhigh : k ≤ 0) (hs : Reaches (flatError c n * flatError c n) (4 ^ k)) :
    Reaches (flatSpread c n) (2 ^ k) := by
  have hsum := reaches_sum_squares hlow hhigh hs hshort (show Reaches (-0) 0 from ⟨rfl, le_rfl⟩)
  have hcount : value (ofNat (n - 1)) = (n - 1 : ℕ) := value_ofNat (by omega)
  have hpos : (0 : ℚ) < (n - 1 : ℕ) := by exact_mod_cast (show 0 < n - 1 by omega)
  -- the bound itself is a double, so the rounded quotient stays above it
  obtain ⟨b, hb, hvalue⟩ := exists_value (n := 1) (by decide) (e := 2 * k) (by omega) (by omega)
  rw [Nat.cast_one, one_mul, ← four_zpow] at hvalue
  refine Reaches.sqrt (by omega) (by omega) ?_
  rw [← hvalue]
  refine hsum.div (by positivity) (isFinite_ofNat (by omega)) (by rwa [hcount])
    (isNaN_of_isFinite hb) ?_
  rw [hvalue, hcount, mul_comm]
  refine mul_le_mul_of_nonneg_right ?_ (by positivity)
  exact_mod_cast (show n - 1 ≤ n by omega)

/-- **Equal values are seen as flat** if and only if their deviations are not divided by a spread to
something finite. -/
theorem seenAsFlat_iff (hn : 2 ≤ n) (hshort : n < 2 ^ 53) : SeenAsFlat c n ↔
    ¬ (0 < flatSpread c n ∧ isFinite (flatError c n / flatSpread c n) = true) := by
  constructor
  · rintro hflat ⟨hpos, hfinite⟩
    have hzero := hflat (isFinite_of_div hfinite)
    have hsum := foldl_replicate_beq_zero hzero n (show ((-0 : Float) == 0) = true from rfl)
    have hcount : value (ofNat (n - 1)) ≠ 0 := by
      rw [value_ofNat (by omega), Nat.cast_ne_zero]
      omega
    exact not_pos_sqrt_of_beq_zero (div_beq_zero hsum (isFinite_ofNat (by omega)) hcount) hpos
  · intro hspread hfinite
    by_contra hne
    rw [Bool.not_eq_true] at hne
    -- a square that is not lost has a scale, and the spread reaches that scale
    obtain ⟨k, hlow, hhigh, hsquare, b, hb, hle⟩ := exists_scale hfinite hne
    have hreach := reaches_flatSpread hn hshort hlow hhigh hsquare
    exact hspread ⟨hreach.pos (by positivity), hreach.isFinite_div hfinite hb hle⟩

/-! ## Standard scores -/

theorem any_isNaN_eq_false {w : List Float} (h : ∀ v ∈ w, isFinite v = true) :
    w.any isNaN = false := by
  rw [List.any_eq_false]
  intro v hv
  rw [isNaN_of_isFinite (h v hv)]
  decide

theorem any_isNaN_replicate (hc : isFinite c = true) : (List.replicate n c).any isNaN = false := by
  refine any_isNaN_eq_false fun v hv => ?_
  rwa [List.eq_of_mem_replicate hv]

theorem newest_replicate (hn : 2 ≤ n) : newest (List.replicate n c) = c := by
  obtain ⟨k, rfl⟩ : ∃ k, n = k + 1 := ⟨n - 1, by omega⟩
  rw [newest, List.replicate_succ', List.getLastD_eq_getLast?, List.getLast?_concat,
    Option.getD_some]

/-- The newest of equal values has a standard score if they are not seen as flat. -/
theorem isNaN_zscore_iff (hc : isFinite c = true) (hn : 2 ≤ n) (hshort : n < 2 ^ 53) :
    isNaN (onWindow zscoreOfNewest (List.replicate n c)) = true ↔ SeenAsFlat c n := by
  have hscore : zscoreOfNewest (List.replicate n c) =
      if 0 < flatSpread c n then flatError c n / flatSpread c n else nan := by
    rw [zscoreOfNewest, std?_replicate hn, newest_replicate hn]
    rfl
  rw [onWindow, any_isNaN_replicate hc, if_neg (by decide), isNaN_orNaN, hscore,
    seenAsFlat_iff hn hshort]
  split
  · rename_i hpos
    rw [Bool.not_eq_true', and_iff_right hpos, Bool.not_eq_true]
  · rename_i hpos
    exact iff_of_true rfl fun h => hpos h.1

theorem eq_of_defined {x : List Float} (hx : defined x = List.replicate n c) {k : ℕ} {v : Float}
    (hv : x[k]? = some v) (hdef : isNaN v = false) : v = c := by
  have hmem : v ∈ defined x := List.mem_filter.mpr ⟨List.mem_of_getElem? hv, by rw [hdef]; rfl⟩
  rw [hx] at hmem
  exact List.eq_of_mem_replicate hmem

/-- A series whose defined values are equal keeps them if they are not seen as flat. -/
theorem definedAt_standardize_iff {x : List Float} (hx : defined x = List.replicate n c)
    (hn : 2 ≤ n) (hshort : n < 2 ^ 53) {i : ℤ} :
    DefinedAt (standardize x) i ↔ DefinedAt x i ∧ ¬ SeenAsFlat c n := by
  have hscores : standardize x = if 0 < flatSpread c n then
      map (fun v => (v - average (List.replicate n c)) / flatSpread c n) x else nowhere x := by
    rw [standardize, hx, mean?_replicate hn, std?_replicate hn]
  rw [seenAsFlat_iff hn hshort, not_not, hscores]
  split
  · rename_i hpos
    rw [and_iff_right hpos]
    -- each defined value is the same and has the same score, defined or not
    constructor
    · intro h
      have hdef := definedAt_of_map (strict_strict _) h
      refine ⟨hdef, ?_⟩
      obtain ⟨k, rfl, v, hv, hnan⟩ := h
      rw [map, List.getElem?_map, Option.map_eq_some_iff] at hv
      obtain ⟨u, hu, rfl⟩ := hv
      unfold strict at hnan
      split at hnan
      · cases hnan
      · rename_i hudef
        rw [eq_of_defined hx hu (Bool.eq_false_of_not_eq_true hudef)] at hnan
        exact isFinite_of_isNaN_orNaN hnan
    · rintro ⟨⟨k, rfl, v, hv, hnan⟩, hfinite⟩
      obtain rfl := eq_of_defined hx hv hnan
      refine ⟨k, rfl, _, by rw [map, List.getElem?_map, hv, Option.map_some], ?_⟩
      rw [strict, hnan, if_neg (by decide), isNaN_orNaN]
      exact congrArg _ hfinite
  · rename_i hpos
    exact iff_of_false not_definedAt_nowhere fun h => hpos h.2.1

/-! ## Correlations -/

theorem dot_replicate (a b : Float) (n : ℕ) :
    dot (List.replicate n a) (List.replicate n b) =
      (List.replicate n (a * b)).foldl (· + ·) 0 := by
  rw [dot, List.zipWith_replicate']

/-- A correlation of lists of the same length, by their deviations. -/
theorem pearson?_eq {x y : List Float} (hn : 2 ≤ x.length) (hlen : y.length = x.length) :
    pearson? x y =
      if dot (x.map (· - average x)) (x.map (· - average x)) ≤ 0 ∨
          dot (y.map (· - average y)) (y.map (· - average y)) ≤ 0 then none
      else (finite? (dot (x.map (· - average x)) (y.map (· - average y)) /
        (sqrt (dot (x.map (· - average x)) (x.map (· - average x))) *
          sqrt (dot (y.map (· - average y)) (y.map (· - average y)))))).map (clamp (-1) 1) := by
  have hmin : min x.length y.length = x.length := by rw [hlen, Nat.min_self]
  rw [pearson?, hmin, if_neg (by omega), List.take_length, ← hlen, List.take_length]

theorem pearson?_take {x y : List Float} (h : x.length ≤ y.length) :
    pearson? x y = pearson? x (y.take x.length) ∧ pearson? y x = pearson? (y.take x.length) x := by
  have hlen : (y.take x.length).length = x.length := List.length_take_of_le h
  simp only [pearson?, hlen, Nat.min_eq_left h, Nat.min_eq_right h, Nat.min_self, List.take_length,
    List.take_take, and_self]

/-- A finite sum of products has finite factors. -/
theorem isFinite_of_foldl_add {l : List Float} {start : Float}
    (h : isFinite (l.foldl (· + ·) start) = true) :
    isFinite start = true ∧ ∀ v ∈ l, isFinite v = true := by
  induction l generalizing start with
  | nil => exact ⟨h, nofun⟩
  | cons v l ih =>
    obtain ⟨hsum, hrest⟩ := ih h
    obtain ⟨hstart, hv⟩ := isFinite_of_add hsum
    exact ⟨hstart, List.forall_mem_cons.mpr ⟨hv, hrest⟩⟩

/-- Values with a finite mean are finite. -/
theorem isFinite_of_average {x : List Float} (h : isFinite (average x) = true) :
    ∀ v ∈ x, isFinite v = true :=
  (isFinite_of_foldl_add (isFinite_of_div h)).2

theorem isFinite_of_dot {x y : List Float} (h : isFinite (dot x y) = true) {i : ℕ} {v w : Float}
    (hv : x[i]? = some v) (hw : y[i]? = some w) : isFinite v = true ∧ isFinite w = true := by
  have hmem : v * w ∈ x.zipWith (· * ·) y := by
    refine List.mem_of_getElem? (i := i) ?_
    rw [List.getElem?_zipWith, hv, hw]
  exact isFinite_of_mul ((isFinite_of_foldl_add h).2 _ hmem)

theorem deviations_replicate (c : Float) (n : ℕ) :
    (List.replicate n c).map (· - average (List.replicate n c)) =
      List.replicate n (flatError c n) := List.map_replicate

/-- Values seen as flat correlate with nothing. -/
theorem pearson?_flat (hflat : SeenAsFlat c n) (hn : 2 ≤ n) {y : List Float} (hlen : y.length = n) :
    pearson? (List.replicate n c) y = none ∧ pearson? y (List.replicate n c) = none := by
  have hlen' : (List.replicate n c).length = n := List.length_replicate
  obtain ⟨w, hw⟩ : ∃ w, (y.map (· - average y))[0]? = some w :=
    ⟨_, List.getElem?_eq_getElem (by rw [List.length_map]; omega)⟩
  have hd : (List.replicate n (flatError c n))[0]? = some (flatError c n) :=
    List.getElem?_replicate_of_lt (by omega)
  rw [pearson?_eq (by omega) (by omega), pearson?_eq (by omega) (by omega),
    deviations_replicate, dot_replicate]
  cases hfinite : isFinite (flatError c n) with
  | true =>
    have hzero := foldl_replicate_beq_zero (hflat hfinite) n
      (show ((0 : Float) == 0) = true from rfl)
    have hle : (List.replicate n (flatError c n * flatError c n)).foldl (· + ·) 0 ≤ 0 := by
      obtain ⟨hdef, hvalue⟩ := value_of_beq_zero hzero
      rw [le_iff_value hdef rfl, hvalue, value_zero]
    exact ⟨if_pos (Or.inl hle), if_pos (Or.inr hle)⟩
  | false =>
    -- what is to be divided is not finite
    have hnot : ∀ {a : Float}, (isFinite a = true → isFinite (flatError c n) = true) →
        isFinite a = false := by
      intro a h
      rw [← Bool.not_eq_true]
      exact fun ha => Bool.false_ne_true (hfinite.symm.trans (h ha))
    have hnone : ∀ {a b : Float}, isFinite a = false →
        (finite? (a / b)).map (clamp (-1) 1) = none := by
      intro a b ha
      rw [finite?, isFinite_div_of_not ha b, if_neg (by decide), Option.map_none]
    rw [hnone (hnot fun h => (isFinite_of_dot h hd hw).1),
      hnone (hnot fun h => (isFinite_of_dot h hw hd).2), ite_self, ite_self]
    exact ⟨rfl, rfl⟩

/-- A series that moves once up and down, about a mean of 0. -/
def swing (n : ℕ) : List Float := 1 :: -1 :: List.replicate (n - 2) 0

theorem length_swing (hn : 2 ≤ n) : (swing n).length = n := by
  rw [swing, List.length_cons, List.length_cons, List.length_replicate]
  omega

theorem average_swing (hn : 2 ≤ n) (hshort : n < 2 ^ 53) : (average (swing n) == 0) = true := by
  have hsum : (sum (swing n) == 0) = true := foldl_replicate_beq_zero (s := 0) rfl _ rfl
  have hcount : value (count (swing n)) ≠ 0 := by
    rw [count, length_swing hn, value_ofNat hshort, Nat.cast_ne_zero]
    omega
  refine div_beq_zero hsum ?_ hcount
  rw [count, length_swing hn]
  exact isFinite_ofNat (by omega)

theorem deviations_swing (hn : 2 ≤ n) (hshort : n < 2 ^ 53) :
    (swing n).map (· - average (swing n)) = swing n := by
  rcases zero_cases (average_swing hn hshort) with h | h
  · rw [h, swing, List.map_cons, List.map_cons, List.map_replicate]
    rfl
  · rw [h, swing, List.map_cons, List.map_cons, List.map_replicate]
    rfl

theorem dot_swing (n : ℕ) : dot (swing n) (swing n) = 2 := by
  have hstill : ∀ k, (List.replicate k (0 : Float)).foldl (· + ·) 2 = 2 := by
    intro k
    induction k with
    | zero => rfl
    | succ k ih => exact ih
  rw [dot, swing, List.zipWith_cons_cons, List.zipWith_cons_cons, List.zipWith_replicate']
  exact hstill (n - 2)

/-- The products with equal values cancel. -/
theorem dot_replicate_swing {d : Float} (hd : isFinite d = true) (hn : 2 ≤ n) :
    (dot (List.replicate n d) (swing n) == 0) = true := by
  -- the first two products are opposites, and all further ones are 0
  obtain ⟨k, rfl⟩ : ∃ k, n = k + 2 := ⟨n - 2, by omega⟩
  rw [dot, swing, List.replicate_succ, List.replicate_succ, List.zipWith_cons_cons,
    List.zipWith_cons_cons, Nat.add_sub_cancel, List.zipWith_replicate', List.foldl_cons,
    List.foldl_cons]
  have hnothing := roundsTo_mul hd (y := 0) rfl
  rw [value_zero, mul_zero] at hnothing
  have hup := roundsTo_mul hd (y := 1) rfl
  rw [value_one, mul_one] at hup
  obtain ⟨hfinite, hvalue⟩ := hup.same hd
  have hfirst := roundsTo_add (x := 0) rfl hfinite
  rw [value_zero, zero_add, hvalue] at hfirst
  obtain ⟨hfinite₁, hvalue₁⟩ := hfirst.same hd
  have hdown := roundsTo_mul hd (y := -1) rfl
  rw [value_neg, value_one, mul_neg_one, ← value_neg] at hdown
  obtain ⟨hfinite₂, hvalue₂⟩ := hdown.same ((isFinite_neg d).trans hd)
  have hcancel := roundsTo_add hfinite₁ hfinite₂
  rw [hvalue₁, hvalue₂, value_neg, add_neg_cancel] at hcancel
  exact foldl_replicate_beq_zero hnothing.beq_zero k hcancel.beq_zero

/-- The root of the sum of squares of errors, times the root of 2. -/
theorem reaches_pearson_scale {d : Float} {k : ℤ} (hn : 2 ≤ n) (hshort : n < 2 ^ 53)
    (hlow : -537 ≤ k) (hhigh : k ≤ 0) (hsquare : Reaches (d * d) (4 ^ k)) :
    Reaches (dot (List.replicate n d) (List.replicate n d)) (4 ^ k) ∧
      Reaches (sqrt (dot (List.replicate n d) (List.replicate n d)) * sqrt 2) (2 ^ k) := by
  have hone : (1 : ℚ) ≤ n := by exact_mod_cast (show 1 ≤ n by omega)
  have hsum : Reaches (dot (List.replicate n d) (List.replicate n d)) (4 ^ k) := by
    rw [dot_replicate]
    exact (reaches_sum_squares hlow hhigh hsquare hshort ⟨rfl, value_zero.ge⟩).mono
      (le_mul_of_one_le_left (by positivity) hone)
  refine ⟨hsum, ?_⟩
  have hroot : isFinite (sqrt (2 : Float)) = true := by decide +kernel
  have hrootone : 1 ≤ value (sqrt 2) := by
    rw [← value_one]
    exact (le_iff_value rfl (isNaN_of_isFinite hroot)).mp (by decide +kernel)
  -- a power of two is a double, so rounding the product does not fall below it
  obtain ⟨b, hb, hvalue⟩ := exists_value (n := 1) (by decide) (e := k) (by omega) (by omega)
  rw [Nat.cast_one, one_mul] at hvalue
  have hside := hsum.sqrt (by omega) (by omega)
  rw [← hvalue] at hside ⊢
  exact hside.mul_finite (isNaN_of_isFinite hb) (by rw [hvalue]; positivity) hroot hrootone

/-- Values not seen as flat correlate with some series. -/
theorem exists_pearson? (hflat : ¬ SeenAsFlat c n) (hn : 2 ≤ n) (hshort : n < 2 ^ 53) :
    ∃ r, isFinite r = true ∧ pearson? (List.replicate n c) (swing n) = some r := by
  obtain ⟨hfinite, hne⟩ := Classical.not_imp.mp hflat
  rw [Bool.not_eq_true] at hne
  obtain ⟨k, hlow, hhigh, hsquare, -⟩ := exists_scale hfinite hne
  obtain ⟨hsum, hscale⟩ := reaches_pearson_scale hn hshort hlow hhigh hsquare
  have hzero := dot_replicate_swing hfinite hn
  -- the numerator is 0, so it is enough that the denominator is not
  have hquotient : isFinite (dot (List.replicate n (flatError c n)) (swing n) /
      (sqrt (dot (List.replicate n (flatError c n)) (List.replicate n (flatError c n))) *
        sqrt 2)) = true := by
    refine hscale.isFinite_div (c := 0) (isFinite_of_beq_zero hzero) rfl ?_
    rw [(value_of_beq_zero hzero).2, value_zero, abs_zero, zero_mul]
  have hsome : ¬ (dot (List.replicate n (flatError c n)) (List.replicate n (flatError c n)) ≤ 0 ∨
      (2 : Float) ≤ 0) := by
    rintro (h | h)
    · exact hsum.not_le_zero (by positivity) h
    · exact absurd h (by decide +kernel)
  have hlen : (List.replicate n c).length = n := List.length_replicate
  have hpearson := pearson?_eq (x := List.replicate n c) (y := swing n) (by omega)
    (by rw [hlen, length_swing hn])
  rw [deviations_replicate, deviations_swing hn hshort, dot_swing, if_neg hsome, finite?,
    if_pos hquotient, Option.map_some] at hpearson
  refine ⟨_, ?_, hpearson⟩
  rw [isFinite_clamp rfl rfl, isNaN_of_isFinite hquotient, Bool.not_false]

/-! ## Trailing windows -/

theorem definedAt_map_range_iff {g : ℕ → Float} {m k : ℕ} :
    DefinedAt ((List.range m).map g) k ↔ k < m ∧ isNaN (g k) = false := by
  rw [definedAt_natCast]
  constructor
  · rintro ⟨v, hv, hdef⟩
    rw [List.getElem?_map, Option.map_eq_some_iff] at hv
    obtain ⟨j, hj, rfl⟩ := hv
    obtain ⟨hlt, hj⟩ := List.getElem?_eq_some_iff.mp hj
    rw [List.getElem_range] at hj
    rw [List.length_range] at hlt
    subst hj
    exact ⟨hlt, hdef⟩
  · rintro ⟨hlt, hdef⟩
    exact ⟨g k, by rw [List.getElem?_map, List.getElem?_range hlt, Option.map_some], hdef⟩

theorem trailing?_whole (hn : 2 ≤ n) {x : List Float} (hx : x.length = n) :
    trailing? x n (n - 1) = some x := by
  rw [trailing?, if_pos (by omega), show n - 1 + 1 - n = 0 by omega, List.drop_zero, ← hx,
    List.take_length]

theorem definedAt_zscore_iff (hc : isFinite c = true) (hn : 2 ≤ n) (hshort : n < 2 ^ 53)
    {x : List Float} {i : ℕ} (hw : trailing? x n i = some (List.replicate n c)) :
    DefinedAt (rolling zscoreOfNewest x n) i ↔ ¬ SeenAsFlat c n := by
  have hi := lt_of_trailing? hw List.length_replicate
  rw [rolling, definedAt_map_range_iff, and_iff_right hi, hw, Option.map_some, Option.getD_some,
    ← isNaN_zscore_iff hc hn hshort, Bool.not_eq_true]

/-- A statistic of pairs of windows that is defined only where their correlation is, and for a
complete window of equal values wherever it is. -/
structure Correlates (c : Float) (n : ℕ) (g : List Float → List Float → List Float) : Prop where
  exists_windows : ∀ x y (i : ℕ), DefinedAt (g x y) i → i < x.length ∧ i < y.length ∧
    ∃ wx wy, trailing? x n i = some wx ∧ trailing? y n i = some wy ∧ (pearson? wx wy).isSome
  defined : ∀ y, y.length = n → y.any isNaN = false →
    (∃ r, isFinite r = true ∧ pearson? (List.replicate n c) y = some r) →
    DefinedAt (g (List.replicate n c) y) (n - 1 : ℕ)

theorem Correlates.windows_iff {g : List Float → List Float → List Float} (hg : Correlates c n g)
    (hn : 2 ≤ n) (hshort : n < 2 ^ 53) :
    (∀ x y (i : ℕ), trailing? x n i = some (List.replicate n c) →
      ¬ DefinedAt (g x y) i ∧ ¬ DefinedAt (g y x) i) ↔ SeenAsFlat c n := by
  constructor
  · intro hnowhere
    by_contra hflat
    -- one series is enough: the one that swings once
    refine (hnowhere (List.replicate n c) (swing n) (n - 1)
      (trailing?_whole hn List.length_replicate)).1 ?_
    refine hg.defined _ (length_swing hn) ?_ (exists_pearson? hflat hn hshort)
    rw [swing, List.any_cons, List.any_cons, any_isNaN_replicate rfl]
    rfl
  · intro hflat x y i hx
    constructor
    · intro hdef
      obtain ⟨-, hi, wx, wy, hwx, hwy, hsome⟩ := hg.exists_windows x y i hdef
      obtain rfl := Option.some.inj (hwx.symm.trans hx)
      rw [(pearson?_flat hflat hn (length_of_trailing? hwy hi)).1] at hsome
      cases hsome
    · intro hdef
      obtain ⟨hi, -, wy, wx, hwy, hwx, hsome⟩ := hg.exists_windows y x i hdef
      obtain rfl := Option.some.inj (hwx.symm.trans hx)
      rw [(pearson?_flat hflat hn (length_of_trailing? hwy hi)).2] at hsome
      cases hsome

theorem isSome_of_correlation {wx wy : List Float} (h : isNaN (correlation wx wy) = false) :
    (pearson? wx wy).isSome := by
  rw [correlation] at h
  cases hr : pearson? wx wy with
  | none =>
    rw [hr] at h
    cases h
  | some r => rfl

theorem correlates_rollingPair (hc : isFinite c = true) (hn : 2 ≤ n) :
    Correlates c n fun x y => rollingPair correlation x y n := by
  refine ⟨?_, ?_⟩
  · -- where it is defined, both windows are full and correlate
    intro x y i hdef
    rw [rollingPair, definedAt_map_range_iff] at hdef
    obtain ⟨hi, hdef⟩ := hdef
    refine ⟨by omega, by omega, ?_⟩
    split at hdef
    · rename_i wx wy hwx hwy
      refine ⟨wx, wy, hwx, hwy, isSome_of_correlation ?_⟩
      unfold onWindows at hdef
      split at hdef
      · cases hdef
      · exact isNaN_of_isFinite (isFinite_of_isNaN_orNaN hdef)
    · cases hdef
  · -- the series of its own length is one window
    rintro y hlen hy ⟨r, hr, hpearson⟩
    rw [rollingPair, definedAt_map_range_iff, List.length_replicate, hlen,
      trailing?_whole hn List.length_replicate, trailing?_whole hn hlen]
    refine ⟨by omega, ?_⟩
    show isNaN (onWindows correlation (List.replicate n c) y) = false
    rw [onWindows, any_isNaN_replicate hc, hy, if_neg (by decide), correlation, hpearson,
      Option.getD_some, isNaN_orNaN, hr]
    rfl

theorem correlates_rolling (hn : 2 ≤ n) : Correlates c n fun x y => Ic.rolling x y n := by
  refine ⟨?_, ?_⟩
  · intro x y i hdef
    rw [Ic.rolling, definedAt_map_range_iff, if_neg (by omega)] at hdef
    obtain ⟨hi, hdef⟩ := hdef
    refine ⟨by omega, by omega, ?_⟩
    split at hdef
    · rename_i wx wy hwx hwy
      exact ⟨wx, wy, hwx, hwy, isSome_of_correlation hdef⟩
    · cases hdef
  · rintro y hlen - ⟨r, hr, hpearson⟩
    rw [Ic.rolling, definedAt_map_range_iff, List.length_replicate, hlen, if_neg (by omega),
      trailing?_whole hn List.length_replicate, trailing?_whole hn hlen]
    refine ⟨by omega, ?_⟩
    show isNaN (correlation (List.replicate n c) y) = false
    rw [correlation, hpearson, Option.getD_some, isNaN_of_isFinite hr]

/-! ## Values of few digits -/

/-- A multiple of a value of few digits is summed without rounding. -/
theorem foldl_replicate_exact {z e : ℤ} (hlow : -1074 ≤ e) (hhigh : e ≤ 971) (hc : isFinite c = true)
    (hvalue : value c = z * 2 ^ e) {m k : ℕ} (hshort : z.natAbs * (k + m) < 2 ^ 53) {start : Float}
    (hstart : isFinite start = true) (hk : value start = k * (z * 2 ^ e)) :
    isFinite ((List.replicate m c).foldl (· + ·) start) = true ∧
      value ((List.replicate m c).foldl (· + ·) start) = (k + m : ℕ) * (z * 2 ^ e) := by
  induction m generalizing k start with
  | zero => exact ⟨hstart, hk⟩
  | succ m ih =>
    have hnext : (z * (k + 1)).natAbs < 2 ^ 53 := by
      refine Nat.lt_of_le_of_lt ?_ hshort
      rw [Int.natAbs_mul]
      exact Nat.mul_le_mul_left _ (by omega)
    -- each partial sum is a multiple short enough to be a double
    obtain ⟨b, hb, hbvalue⟩ := exists_integer_value hnext hlow hhigh
    have hround := roundsTo_add hstart hc
    have hsum : value start + value c = value b := by
      rw [hk, hvalue, hbvalue]
      push_cast
      ring
    rw [hsum] at hround
    obtain ⟨hfinite, hsame⟩ := hround.same hb
    rw [List.replicate_succ, List.foldl_cons, show k + (m + 1) = k + 1 + m by omega]
    refine ih (by rwa [show k + 1 + m = k + (m + 1) by omega]) hfinite ?_
    rw [hsame, ← hsum, hk, hvalue]
    push_cast
    ring

/-- **Equal values of few digits are seen as flat**, few meaning that their sum is not longer than a
mantissa. -/
theorem seenAsFlat_of_short {z e : ℤ} (hn : 2 ≤ n) (hcount : n < 2 ^ 53) (hlow : -1074 ≤ e)
    (hhigh : e ≤ 971) (hc : isFinite c = true) (hvalue : value c = z * 2 ^ e)
    (hshort : z.natAbs * n < 2 ^ 53) : SeenAsFlat c n := by
  obtain ⟨hsum, hsumvalue⟩ := foldl_replicate_exact hlow hhigh hc hvalue (k := 0) (m := n)
    (by rwa [Nat.zero_add]) (show isFinite (-0 : Float) = true from rfl)
    (by rw [Nat.cast_zero, zero_mul]; rfl)
  have hofNat : value (ofNat n) = n := value_ofNat hcount
  have hne : (n : ℚ) ≠ 0 := by
    rw [Nat.cast_ne_zero]
    omega
  -- the sum is exact, so the mean is the value and the error is 0
  have hmean := roundsTo_div hsum (isFinite_ofNat (n := n) (by omega)) (by rwa [hofNat])
  rw [hsumvalue, hofNat, Nat.zero_add, mul_div_cancel_left₀ _ hne, ← hvalue] at hmean
  have haverage : average (List.replicate n c) =
      (List.replicate n c).foldl (· + ·) (-0) / ofNat n := by
    rw [average, count, List.length_replicate, sum]
  obtain ⟨hfinite, hsame⟩ := hmean.same hc
  have herror := roundsTo_sub hc hfinite
  rw [hsame, sub_self, ← haverage] at herror
  intro _
  have hzero := herror.beq_zero
  have hsquare := roundsTo_mul (isFinite_of_beq_zero hzero) (isFinite_of_beq_zero hzero)
  rw [(value_of_beq_zero hzero).2, mul_zero] at hsquare
  exact hsquare.beq_zero

end Series

open Series

/-- What the statistics of `n` equal values come to. All of them follow one condition. -/
structure FlatOutcome (c : Float) (n : ℕ) : Prop where
  /-- Equal values of few digits are seen as flat. -/
  short : ∀ z e : ℤ, -1074 ≤ e → e ≤ 971 → value c = z * 2 ^ e → z.natAbs * n < 2 ^ 53 →
    SeenAsFlat c n
  /-- The standard scores are defined where the series is, or nowhere. -/
  standardize : ∀ x, defined x = List.replicate n c → ∀ i,
    DefinedAt (standardize x) i ↔ DefinedAt x i ∧ ¬ SeenAsFlat c n
  zscore : ∀ x (i : ℕ), trailing? x n i = some (List.replicate n c) →
    (DefinedAt (rolling zscoreOfNewest x n) i ↔ ¬ SeenAsFlat c n)
  /-- Nothing correlates with them, or something does. -/
  pearson : (∀ y, n ≤ y.length → pearson? (List.replicate n c) y = none ∧
    pearson? y (List.replicate n c) = none) ↔ SeenAsFlat c n
  correlation : (∀ x y (i : ℕ), trailing? x n i = some (List.replicate n c) →
    ¬ DefinedAt (rollingPair correlation x y n) i ∧ ¬ DefinedAt (rollingPair correlation y x n) i) ↔
      SeenAsFlat c n
  coefficient : (∀ x y (i : ℕ), trailing? x n i = some (List.replicate n c) →
    ¬ DefinedAt (Ic.rolling x y n) i ∧ ¬ DefinedAt (Ic.rolling y x n) i) ↔ SeenAsFlat c n

/-- **Equal values** have standard scores and correlations if and only if they are not seen as flat,
that is, if their rounded mean is off by an error whose square is not lost.

All of these statistics begin with the deviations from the mean, and those of equal values are all
the same error. When its square is 0, so is every spread. Otherwise the scores are that error over
its own spread, and there is a series to correlate with, one that swings once (`exists_pearson?`).
Values of few digits have a mean without error. -/
theorem flat_outcome {c : Float} {n : ℕ} (hc : isFinite c = true) (hn : 2 ≤ n)
    (hshort : n < 2 ^ 53) : FlatOutcome c n := by
  refine ⟨?_, ?_, ?_, ?_, ?_, ?_⟩
  · exact fun z e hlow hhigh => seenAsFlat_of_short hn hshort hlow hhigh hc
  · exact fun x hx i => definedAt_standardize_iff hx hn hshort
  · exact fun x i hw => definedAt_zscore_iff hc hn hshort hw
  · constructor
    · intro hnone
      by_contra hflat
      obtain ⟨r, -, hr⟩ := exists_pearson? hflat hn hshort
      rw [(hnone _ (length_swing hn).ge).1] at hr
      cases hr
    · intro hflat y hlen
      obtain ⟨h, h'⟩ := pearson?_take (x := List.replicate n c) (y := y) (by rwa [List.length_replicate])
      rw [h, h', List.length_replicate]
      exact pearson?_flat hflat hn (List.length_take_of_le hlen)
  · exact (correlates_rollingPair hc hn).windows_iff hn hshort
  · exact (correlates_rolling hn).windows_iff hn hshort

/-- Three tenths are not seen as flat: their sum is `0.30000000000000004`. -/
theorem flat_outcome_tenths : isFinite (0.1 : Float) = true ∧ 3 < 2 ^ 53 ∧ FlatOutcome 0.1 3 ∧
    ¬ SeenAsFlat 0.1 3 :=
  ⟨rfl, by decide, flat_outcome rfl (by decide) (by decide), by decide +kernel⟩

end FactorStudy
