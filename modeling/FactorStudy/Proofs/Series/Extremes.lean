import FactorStudy.Proofs.Evaluation.Definedness
import FactorStudy.Proofs.Series.Flat

/-!
# Where the extremes of a window stand

The greatest value of a window and its position are found by two folds. One starts from minus
infinity and keeps the larger of two values. The other starts from the oldest entry and keeps an
entry with its position until a strictly greater one comes. The same comparisons decide in both, so
after every entry they hold the same one: the first of the greatest so far (`Foremost`,
`Search.foremost_foldl`).

The least value is the one whose opposite is greatest, so the folds for it are the same search by
another key.
-/

namespace FactorStudy

open Number Double

namespace Series

/-! ## The first of the greatest -/

/-- The entry `m` at position `k` is the first one with the greatest key. -/
structure Foremost (key : Float → ℚ) (w : List Float) (k : ℕ) (m : Float) : Prop where
  entry : w[k]? = some m
  earlier : ∀ j < k, ∀ u, w[j]? = some u → key u < key m
  greatest : ∀ u ∈ w, key u ≤ key m

namespace Foremost

variable {key : Float → ℚ} {w : List Float} {k : ℕ} {m v : Float}

theorem singleton (key : Float → ℚ) (v : Float) : Foremost key [v] 0 v where
  entry := rfl
  earlier := fun _ hj => absurd hj (Nat.not_lt_zero _)
  greatest := fun _ hu => (congrArg key (List.mem_singleton.mp hu)).le

variable (h : Foremost key w k m)

include h

theorem mem : m ∈ w := List.mem_of_getElem? h.entry

theorem lt_length : k < w.length := (List.getElem?_eq_some_iff.mp h.entry).1

/-- A greater entry takes the place. -/
theorem concat_of_lt (hlt : key m < key v) : Foremost key (w ++ [v]) w.length v where
  entry := List.getElem?_concat_length
  earlier := by
    intro j hj u hu
    rw [List.getElem?_append_left hj] at hu
    exact (h.greatest u (List.mem_of_getElem? hu)).trans_lt hlt
  greatest := by
    intro u hu
    rcases List.mem_append.mp hu with hu | hu
    · exact (h.greatest u hu).trans hlt.le
    · rw [List.mem_singleton.mp hu]

/-- One that is not greater leaves it. -/
theorem concat_of_le (hle : key v ≤ key m) : Foremost key (w ++ [v]) k m where
  entry := by rw [List.getElem?_append_left h.lt_length, h.entry]
  earlier := by
    intro j hj u hu
    rw [List.getElem?_append_left (hj.trans h.lt_length)] at hu
    exact h.earlier j hj u hu
  greatest := by
    intro u hu
    rcases List.mem_append.mp hu with hu | hu
    · exact h.greatest u hu
    · rwa [List.mem_singleton.mp hu]

end Foremost

/-! ## The two folds -/

/-- A search by position, with `beats`, and one by value, with `pick` from `start` on, that are led
by the same key. -/
structure Search (key : Float → ℚ) (beats : Float → Float → Bool) (pick : Float → Float → Float)
    (start : Float) : Prop where
  beats_iff : ∀ {a b}, isNaN a = false → isNaN b = false → (beats b a = true ↔ key a < key b)
  pick_eq : ∀ {a b}, isNaN a = false → isNaN b = false → pick a b = if key a < key b then b else a
  start_eq : ∀ {v}, isFinite v = true → pick start v = v

theorem search_greatest : Search value (fun a b => decide (b < a)) larger (-infinity) where
  beats_iff ha hb := decide_eq_true_iff.trans (lt_iff_value ha hb)
  pick_eq ha hb := by
    rw [larger, ha, hb, if_neg Bool.false_ne_true, if_neg Bool.false_ne_true]
    simp only [lt_iff_value ha hb]
  start_eq {v} hv := by
    rw [larger, isNaN_of_isFinite hv, if_neg (by decide), if_neg Bool.false_ne_true,
      if_pos (neg_infinity_lt hv)]

theorem search_least : Search (fun v => -value v) (fun a b => decide (a < b)) smaller infinity where
  beats_iff ha hb := by
    rw [decide_eq_true_iff, lt_iff_value hb ha, neg_lt_neg_iff]
  pick_eq ha hb := by
    rw [smaller, ha, hb, if_neg Bool.false_ne_true, if_neg Bool.false_ne_true]
    simp only [lt_iff_value hb ha, neg_lt_neg_iff]
  start_eq {v} hv := by
    rw [smaller, isNaN_of_isFinite hv, if_neg (by decide), if_neg Bool.false_ne_true,
      if_pos (lt_infinity hv)]

namespace Search

variable {key : Float → ℚ} {beats : Float → Float → Bool} {pick : Float → Float → Float}
  {start : Float} (h : Search key beats pick start)

include h

/-- **Both folds hold the same entry** after each of the entries that follow those in `done`. -/
theorem foremost_foldl (rest : List Float) {done : List Float} {k : ℕ} {m : Float}
    (hm : Foremost key done k m) (hdef : ∀ u ∈ done ++ rest, isNaN u = false) :
    Foremost key (done ++ rest)
      ((rest.zipIdx done.length).foldl (fun best p => if beats p.1 best.1 then p else best)
        (m, k)).2
      (rest.foldl pick m) := by
  induction rest generalizing done k m with
  | nil => rwa [List.append_nil]
  | cons v rest ih =>
    have hdefm : isNaN m = false := hdef m (List.mem_append_left _ hm.mem)
    have hdefv : isNaN v = false := hdef v (List.mem_append_right _ List.mem_cons_self)
    -- `v` joins the entries that are done, whose number is the position of the next one
    have hlen : (done ++ [v]).length = done.length + 1 := List.length_append
    rw [List.append_cons] at hdef
    rw [List.append_cons, List.zipIdx_cons, List.foldl_cons, List.foldl_cons, h.pick_eq hdefm hdefv]
    simp only [h.beats_iff hdefm hdefv]
    split
    · rename_i hlt
      have hnext := ih (hm.concat_of_lt hlt) hdef
      rwa [hlen] at hnext
    · rename_i hge
      have hnext := ih (hm.concat_of_le (not_lt.mp hge)) hdef
      rwa [hlen] at hnext

/-- The position is that of the first extreme value, and the value is the one that stands there. -/
theorem foremost {w : List Float} (hne : w ≠ []) (hw : ∀ v ∈ w, isFinite v = true) :
    Foremost key w (firstBest beats w) (w.foldl pick start) := by
  obtain ⟨v, rest, rfl⟩ := List.exists_cons_of_ne_nil hne
  -- every entry is greater than the start, so the fold by value holds the oldest one next
  rw [List.foldl_cons, h.start_eq (hw v List.mem_cons_self)]
  exact h.foremost_foldl rest (Foremost.singleton key v) fun u hu => isNaN_of_isFinite (hw u hu)

end Search

/-- The one statistic is the position in a window at which the other is found, the first value with
the greatest key. -/
def Finds (key : Float → ℚ) (place extreme : Rolling) : Prop :=
  ∀ w : List Float, w ≠ [] → (∀ v ∈ w, isFinite v = true) →
    ∃ k, place.statistic w = ofNat k ∧ Foremost key w k (extreme.statistic w)

theorem finds_max : Finds value .argmax .max :=
  fun _ hne hw => ⟨_, rfl, search_greatest.foremost hne hw⟩

theorem finds_min : Finds (fun v => -value v) .argmin .min :=
  fun _ hne hw => ⟨_, rfl, search_least.foremost hne hw⟩

/-! ## Windows -/

/-- An entry of a window, in the series. -/
theorem getElem?_trailing? {α : Type} {x w : List α} {n i j : ℕ} (hw : trailing? x n i = some w)
    (hj : j < n) : w[j]? = x[i + 1 - n + j]? := by
  unfold trailing? at hw
  split at hw
  · cases hw
    rw [List.getElem?_take_of_lt hj, List.getElem?_drop]
  · cases hw

/-- The window of `n` bars that ends at bar `i` is complete and has no gap. -/
def FullAt (x : List Float) (n i : ℕ) : Prop :=
  n ≤ i + 1 ∧ ∀ j < n, DefinedAt x (i + 1 - n + j : ℕ)

/-- The statistic of a window of finite values, where it is finite itself. -/
theorem getElem?_rolling_of_finite {f : List Float → Float} {x w : List Float} {n i : ℕ}
    (hw : trailing? x n i = some w) (hi : i < x.length) (hfinite : ∀ v ∈ w, isFinite v = true)
    (hf : isFinite (f w) = true) : (rolling f x n)[i]? = some (f w) := by
  rw [getElem?_rolling f hw hi, onWindow, any_isNaN_eq_false hfinite, if_neg Bool.false_ne_true,
    orNaN_eq_self hf]

section Window

variable {n i : ℕ} (hn : 1 ≤ n)

include hn

theorem FullAt.exists_window {x : FactorSeries Float} (h : FullAt x.values n i) :
    ∃ w, trailing? x.values n i = some w ∧ i < x.size ∧ w.length = n ∧
      ∀ v ∈ w, isFinite v = true := by
  obtain ⟨hfull, hdef⟩ := h
  have hlast := (hdef (n - 1) (by omega)).lt_length
  have hi : i < x.values.length := by omega
  obtain ⟨w, hw, hlen⟩ := exists_trailing? hn hfull hi
  refine ⟨w, hw, hi, hlen, fun v hv => ?_⟩
  obtain ⟨j, hj⟩ := List.mem_iff_getElem?.mp hv
  have hjlt : j < n := hlen ▸ (List.getElem?_eq_some_iff.mp hj).1
  obtain ⟨u, hu, hdefined⟩ := definedAt_natCast.mp (hdef j hjlt)
  rw [← getElem?_trailing? hw hjlt, hj, Option.some.injEq] at hu
  subst hu
  refine x.isFinite_of_defined (List.mem_filter.mpr ⟨mem_of_mem_trailing? hw hv, ?_⟩)
  rw [hdefined]
  rfl

/-- Other windows have no statistic. -/
theorem fullAt_of_rolling {f : List Float → Float} {x : List Float}
    (h : DefinedAt (rolling f x n) i) : FullAt x n i := by
  have hfirst := (definedAt_of_rolling h (j := i - n + 1) (by omega) (by omega)).nonneg
  refine ⟨by omega, fun j hj => definedAt_of_rolling h ?_ ?_⟩
  · omega
  · omega

end Window

/-- How the position of an extreme stands to the extreme, at bar `i` in windows of `n` bars. Of two
values, the one less extreme is `worse`. -/
structure Located (place extreme : Rolling) (worse : Float → Float → Prop) (x : List Float)
    (n i : ℕ) : Prop where
  /-- Both are defined where the window is complete and has no gap. -/
  place_iff : DefinedAt (place.apply x n) i ↔ FullAt x n i
  extreme_iff : DefinedAt (extreme.apply x n) i ↔ FullAt x n i
  /-- The position, counted from the oldest entry, is that of an entry equal to the extreme, and all
  entries before it are worse. It is written as a double, exactly if it is below `2 ^ 53`. -/
  first : FullAt x n i → ∃ k < n, (place.apply x n)[i]? = some (ofNat k) ∧
    (k < 2 ^ 53 → value (ofNat k) = k) ∧
    ∃ v m, x[i + 1 - n + k]? = some v ∧ (extreme.apply x n)[i]? = some m ∧ (v == m) = true ∧
      ∀ j < k, ∃ u, x[i + 1 - n + j]? = some u ∧ worse u m

section Located

variable {key : Float → ℚ} {place extreme : Rolling} (h : Finds key place extreme) {n : ℕ}
  (hn : 1 ≤ n) {x : FactorSeries Float} (hsize : x.size < 2 ^ 64) {i : ℕ}

include h hn hsize

/-- What the two statistics are of a window without gaps. -/
theorem exists_foremost (hfull : FullAt x.values n i) : ∃ w k, trailing? x.values n i = some w ∧
    (∀ v ∈ w, isNaN v = false) ∧ w.length = n ∧ Foremost key w k (extreme.statistic w) ∧
    (place.apply x.values n)[i]? = some (ofNat k) ∧ isNaN (ofNat k : Float) = false ∧
    (extreme.apply x.values n)[i]? = some (extreme.statistic w) := by
  have hshort := hfull.1
  obtain ⟨w, hw, hi, hlen, hfinite⟩ := hfull.exists_window hn
  obtain ⟨k, hk, hfirst⟩ := h w (List.ne_nil_of_length_pos (by omega)) hfinite
  have hlt := hfirst.lt_length
  have hcount : isFinite (ofNat k : Float) = true := isFinite_ofNat (by omega)
  have hplace := getElem?_rolling_of_finite hw hi hfinite (hk ▸ hcount)
  rw [hk] at hplace
  exact ⟨w, k, hw, fun v hv => isNaN_of_isFinite (hfinite v hv), hlen, hfirst, hplace,
    isNaN_of_isFinite hcount, getElem?_rolling_of_finite hw hi hfinite (hfinite _ hfirst.mem)⟩

theorem located_of {worse : Float → Float → Prop} (hworse : ∀ {u m}, isNaN u = false →
    isNaN m = false → key u < key m → worse u m) : Located place extreme worse x.values n i where
  -- both folds run over the same window, so they are about one entry, the foremost
  place_iff := by
    refine ⟨fullAt_of_rolling hn, fun hfull => ?_⟩
    obtain ⟨w, k, -, -, -, -, hplace, hcount, -⟩ := exists_foremost h hn hsize hfull
    exact definedAt_natCast.mpr ⟨_, hplace, hcount⟩
  extreme_iff := by
    refine ⟨fullAt_of_rolling hn, fun hfull => ?_⟩
    obtain ⟨w, k, -, hdef, -, hfirst, -, -, hextreme⟩ := exists_foremost h hn hsize hfull
    exact definedAt_natCast.mpr ⟨_, hextreme, hdef _ hfirst.mem⟩
  first := by
    intro hfull
    obtain ⟨w, k, hw, hdef, rfl, hfirst, hplace, -, hextreme⟩ := exists_foremost h hn hsize hfull
    have hm := hdef _ hfirst.mem
    have hentry := getElem?_trailing? hw hfirst.lt_length
    rw [hfirst.entry] at hentry
    refine ⟨k, hfirst.lt_length, hplace, value_ofNat, _, _, hentry.symm, hextreme,
      (beq_iff_value hm hm).mpr rfl, fun j hj => ?_⟩
    have hlt : j < w.length := hj.trans hfirst.lt_length
    have hearlier := hfirst.earlier j hj _ (List.getElem?_eq_getElem hlt)
    refine ⟨w[j], ?_, hworse (hdef _ (List.getElem_mem hlt)) hm hearlier⟩
    rw [← getElem?_trailing? hw hlt, List.getElem?_eq_getElem hlt]

end Located

/-- **The positions of the extremes** of a window are defined where the extremes are, and are those
of the first entries equal to them.

A position is found by one fold over a window and an extreme by another. Both keep an entry that no
later one beats, though the second may change between equal ones, such as the two zeros; this is why
the entry at the position is only equal to the extreme. A size below `2 ^ 64` is that of any series
in memory. -/
theorem extremes_located (x : FactorSeries Float) (hsize : x.size < 2 ^ 64) {n : ℕ} (hn : 1 ≤ n)
    (i : ℕ) : Located .argmax .max (fun u m => u < m) x.values n i ∧
      Located .argmin .min (fun u m => m < u) x.values n i := by
  constructor
  · exact located_of finds_max hn hsize fun hu hm hlt => (lt_iff_value hu hm).mpr hlt
  · exact located_of finds_min hn hsize
      fun hu hm hlt => (lt_iff_value hm hu).mpr (neg_lt_neg_iff.mp hlt)

/-- A gap, and then a top that is reached twice, by the two zeros. -/
def levelTop : FactorSeries Float := FactorSeries.ofValues [nan, -1, -0, 0]

theorem extremes_located_levelTop : levelTop.size < 2 ^ 64 ∧
    Located .argmax .max (fun u m => u < m) levelTop.values 3 3 ∧
    Located .argmin .min (fun u m => m < u) levelTop.values 3 3 ∧ FullAt levelTop.values 3 3 ∧
    (Rolling.argmax.apply levelTop.values 3)[3]? = some 1 := by
  have hsize : levelTop.size < 2 ^ 64 := by decide
  obtain ⟨hmax, hmin⟩ := extremes_located levelTop hsize (n := 3) (by decide) 3
  have hplace : (Rolling.argmax.apply levelTop.values 3)[3]? = some 1 := by decide +kernel
  exact ⟨hsize, hmax, hmin, hmax.place_iff.mp (definedAt_natCast.mpr ⟨1, hplace, rfl⟩), hplace⟩

end Series

end FactorStudy
