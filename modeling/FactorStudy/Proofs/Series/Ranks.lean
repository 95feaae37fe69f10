import FactorStudy.Proofs.Backtest.Frequency
import FactorStudy.Proofs.Double.Reach
import FactorStudy.Proofs.Evaluation.Accepted

/-!
# Ranks

Three functions rank values and let equal ones share their mean place, each in its own way:
`averageRanks` sorts the values and goes through the runs of equal ones, `rankOfNewest` counts in a
window, and `rank` takes the ranks of the defined entries back to their bars. All of them give the
same rank, which is a count: the mean of the places that `tied` equal values take up after those
`below` them (`rankAmong`).

Sorting puts `-0` before `0` and may leave other entries between no two equal values, so the runs are
those of values that count as equal (`mem_rankRuns`). The places are added in doubles, without an
error as long as the list is shorter than `2 ^ 52`; a longer one is more than a memory holds.
-/

namespace FactorStudy

open Number Double

namespace Series

/-! ## Places -/

/-- How many values are less than a value. -/
def below (x : List Float) (v : Float) : ℕ := x.countP fun w => w < v

/-- How many values count as equal to a value, the two zeros to each other. -/
def tied (x : List Float) (v : Float) : ℕ := x.countP fun w => w == v

/-- The mean of the places, from 1, of `t` values that are equal and have `b` values below them. -/
def meanPlace (b t : ℕ) : Float := ofNat (b + (b + (t - 1))) / 2 + 1

/-- The mean place is the number of values below, and half of the way through the run. -/
theorem meanPlace_spec {b t : ℕ} (ht : 0 < t) (hlt : b + t < 2 ^ 52) :
    isFinite (meanPlace b t) = true ∧ value (meanPlace b t) = b + (t + 1 : ℚ) / 2 := by
  obtain ⟨t, rfl⟩ := Nat.exists_eq_add_of_lt ht
  rw [zero_add] at *
  have hsub : b + (b + (t + 1 - 1)) = 2 * b + t := by omega
  -- the half is exact, and so is the sum, while places are below 2^52
  have hhalf := roundsTo_half (isFinite_ofNat (n := 2 * b + t) (by omega))
  rw [value_ofNat (by omega), div_eq_mul_inv, ← zpow_neg_one] at hhalf
  obtain ⟨hfinite, hvalue⟩ := hhalf.units (by omega) (by decide) (by decide)
  have hsum := roundsTo_add hfinite (isFinite_ofNat (n := 1) (by decide))
  have hone : value (ofNat 1) = 1 := value_one
  have hplace : ((2 * b + t : ℕ) : ℚ) * 2 ^ (-1 : ℤ) + 1 = (2 * b + t + 2 : ℕ) * 2 ^ (-1 : ℤ) := by
    rw [zpow_neg_one]
    push_cast
    ring
  rw [hvalue, hone, hplace] at hsum
  obtain ⟨hfinite, hvalue⟩ := hsum.units (by omega) (by decide) (by decide)
  rw [meanPlace, hsub]
  refine ⟨hfinite, hvalue.trans ?_⟩
  rw [zpow_neg_one]
  push_cast
  ring

/-! ## Runs of equal values -/

/-- Ranking keeps the positions. -/
theorem map_snd_rankRuns (place : ℕ) (l : List (Float × ℕ)) :
    (rankRuns place l).map Prod.snd = l.map Prod.snd := by
  fun_induction rankRuns place l with
  | case1 => rfl
  | case2 place v i rest run shared ih =>
    rw [List.map_append, ih, List.map_map]
    show List.map Prod.snd ((v, i) :: run) ++ _ = _
    rw [← List.map_append, List.cons_append, List.takeWhile_append_dropWhile]

section Runs

variable {v : Float} {rest : List (Float × ℕ)} (hv : isNaN v = false)
  (hrest : ∀ p ∈ rest, isNaN p.1 = false) (hle : ∀ p ∈ rest, value v ≤ value p.1)
  (hsorted : rest.Pairwise fun p q => value p.1 ≤ value q.1)

include hv hrest

theorem value_eq_of_mem_run {p : Float × ℕ} (hp : p ∈ rest.takeWhile fun p => p.1 == v) :
    value p.1 = value v := by
  have hbeq := List.mem_takeWhile_imp hp
  have hmem : p ∈ rest := (List.takeWhile_sublist _).subset hp
  have hdef := hrest p hmem
  exact (beq_iff_value hdef hv).mp hbeq

include hle hsorted

/-- What comes after the run of a value is greater. -/
theorem lt_of_mem_after_run {p : Float × ℕ} (hp : p ∈ rest.dropWhile fun p => p.1 == v) :
    value v < value p.1 := by
  induction rest with
  | nil => cases hp
  | cons q rest ih =>
    obtain ⟨hhead, htail⟩ := List.pairwise_cons.mp hsorted
    rw [List.forall_mem_cons] at hrest hle
    rw [List.dropWhile_cons] at hp
    split at hp
    · exact ih hrest.2 hle.2 htail hp
    · rename_i hne
      rw [beq_iff_value hrest.1 hv] at hne
      have hlt : value v < value q.1 := lt_of_le_of_ne hle.1 (Ne.symm hne)
      rcases List.mem_cons.mp hp with rfl | hp
      · exact hlt
      · exact hlt.trans_le (hhead p hp)

end Runs

theorem below_append (x y : List Float) (v : Float) : below (x ++ y) v = below x v + below y v :=
  List.countP_append

theorem tied_append (x y : List Float) (v : Float) : tied (x ++ y) v = tied x v + tied y v :=
  List.countP_append

section Counts

variable {x : List Float} {v : Float} (hx : ∀ w ∈ x, isNaN w = false) (hv : isNaN v = false)

include hx hv

theorem below_eq_zero (h : ∀ w ∈ x, value v ≤ value w) : below x v = 0 := by
  refine List.countP_eq_zero.mpr fun w hw hlt => ?_
  exact absurd ((lt_iff_value (hx w hw) hv).mp (of_decide_eq_true hlt)) (not_lt.mpr (h w hw))

theorem below_eq_length (h : ∀ w ∈ x, value w < value v) : below x v = x.length :=
  List.countP_eq_length.mpr fun w hw => decide_eq_true ((lt_iff_value (hx w hw) hv).mpr (h w hw))

theorem tied_eq_zero (h : ∀ w ∈ x, value w ≠ value v) : tied x v = 0 :=
  List.countP_eq_zero.mpr fun w hw heq => h w hw ((beq_iff_value (hx w hw) hv).mp heq)

theorem tied_eq_length (h : ∀ w ∈ x, value w = value v) : tied x v = x.length :=
  List.countP_eq_length.mpr fun w hw => (beq_iff_value (hx w hw) hv).mpr (h w hw)

end Counts

section Split

variable {run later : List Float} {v w : Float} (hrun : ∀ u ∈ run, isNaN u = false ∧ value u = value v)
  (hlater : ∀ u ∈ later, isNaN u = false ∧ value v < value u) (hw : isNaN w = false)

include hrun hlater hw

/-- A value of the first run has none below it and its run beside it. -/
theorem counts_of_run (heq : value w = value v) :
    below (run ++ later) w = 0 ∧ tied (run ++ later) w = run.length := by
  have hrun' : ∀ u ∈ run, isNaN u = false := fun u hu => (hrun u hu).1
  have hlater' : ∀ u ∈ later, isNaN u = false := fun u hu => (hlater u hu).1
  rw [below_append, tied_append, below_eq_zero hrun' hw, below_eq_zero hlater' hw,
    tied_eq_length hrun' hw, tied_eq_zero hlater' hw]
  · exact ⟨rfl, rfl⟩
  · exact fun u hu => heq ▸ (hlater u hu).2.ne'
  · exact fun u hu => heq ▸ (hrun u hu).2
  · exact fun u hu => heq ▸ (hlater u hu).2.le
  · exact fun u hu => heq ▸ (hrun u hu).2.ge

omit hlater in
/-- A later value has the first run below it. -/
theorem counts_after_run (hlt : value v < value w) : below (run ++ later) w = run.length + below later w ∧
    tied (run ++ later) w = tied later w := by
  have hrun' : ∀ u ∈ run, isNaN u = false := fun u hu => (hrun u hu).1
  rw [below_append, tied_append, below_eq_length hrun' hw, tied_eq_zero hrun' hw, zero_add]
  · exact ⟨rfl, rfl⟩
  · exact fun u hu => ((hrun u hu).2.trans_lt hlt).ne
  · exact fun u hu => (hrun u hu).2.trans_lt hlt

end Split

/-- **The places of a run.** In an ascending list the places of equal values are counted from the
values below them. -/
theorem mem_rankRuns (place : ℕ) (l : List (Float × ℕ)) (hdef : ∀ p ∈ l, isNaN p.1 = false)
    (hsorted : l.Pairwise fun p q => value p.1 ≤ value q.1) {w : Float} {j : ℕ} (h : (w, j) ∈ l) :
    (meanPlace (place + below (l.map Prod.fst) w) (tied (l.map Prod.fst) w), j) ∈
      rankRuns place l := by
  have hw : isNaN w = false := hdef (w, j) h
  fun_induction rankRuns place l with
  | case1 => cases h
  -- the list is a run of equal values and what lies above it
  | case2 place v i rest run shared ih =>
    obtain ⟨hv, hrest⟩ := List.forall_mem_cons.mp hdef
    obtain ⟨hle, htail⟩ := List.pairwise_cons.mp hsorted
    have hrun : ∀ u ∈ ((v, i) :: run).map Prod.fst, isNaN u = false ∧ value u = value v := by
      rw [List.map_cons, List.forall_mem_cons, List.forall_mem_map]
      exact ⟨⟨hv, rfl⟩, fun p hp => ⟨hrest p ((List.takeWhile_sublist _).subset hp),
        value_eq_of_mem_run hv hrest hp⟩⟩
    have hlater : ∀ u ∈ (rest.dropWhile fun p => p.1 == v).map Prod.fst,
        isNaN u = false ∧ value v < value u := by
      rw [List.forall_mem_map]
      exact fun p hp => ⟨hrest p ((List.dropWhile_sublist _).subset hp),
        lt_of_mem_after_run hv hrest hle htail hp⟩
    have hsplit : (v, i) :: rest = ((v, i) :: run) ++ rest.dropWhile fun p => p.1 == v := by
      rw [List.cons_append, List.takeWhile_append_dropWhile]
    rw [hsplit] at h ⊢
    rw [List.map_append]
    rcases List.mem_append.mp h with h | h
    · -- in the run nothing is below, and the whole run is tied
      obtain ⟨hbelow, htied⟩ := counts_of_run hrun hlater hw
        (hrun w (List.mem_map_of_mem h)).2
      rw [hbelow, htied, List.length_map]
      exact List.mem_append_left _ (List.mem_map.mpr ⟨(w, j), h, rfl⟩)
    · -- behind it, the run is below and adds its length to the places
      obtain ⟨hbelow, htied⟩ := counts_after_run hrun hw
        (hlater w (List.mem_map_of_mem h)).2
      have hplace := ih (fun p hp => hrest p ((List.dropWhile_sublist _).subset hp))
        (htail.sublist (List.dropWhile_sublist _)) h
      have hshift : ∀ b : ℕ, place + (run.length + 1 + b) = place + 1 + run.length + b := by omega
      rw [hbelow, htied, List.length_map, List.length_cons, hshift]
      exact List.mem_append_right _ hplace

/-! ## The ranks of a list -/

/-- The rank of a value among others: the mean of the places that the values equal to it take up. -/
def rankAmong (x : List Float) (v : Float) : Float := meanPlace (below x v) (tied x v)

section Average

variable {x : List Float}

theorem below_perm {y : List Float} (h : x.Perm y) (v : Float) : below x v = below y v :=
  h.countP_eq _

theorem tied_perm {y : List Float} (h : x.Perm y) (v : Float) : tied x v = tied y v :=
  h.countP_eq _

/-- The ranks in ascending order of the values, with their positions. -/
theorem map_snd_rankRuns_sorted (x : List Float) :
    ((rankRuns 0 (Layers.sorted x)).map Prod.snd).Perm (List.range x.length) := by
  rw [map_snd_rankRuns]
  exact Layers.order_perm x

theorem length_averageRanks (x : List Float) : (averageRanks x).length = x.length := by
  have hlen := (map_snd_rankRuns_sorted x).length_eq
  rw [List.length_map, List.length_range] at hlen
  show (List.map _ (List.mergeSort (rankRuns 0 (Layers.sorted x)) _)).length = _
  rw [List.length_map, List.length_mergeSort, hlen]

variable (hx : ∀ v ∈ x, isNaN v = false)

include hx

/-- **Ranks are counts.** -/
theorem averageRanks_eq : averageRanks x = x.map (rankAmong x) := by
  have hperm : (Layers.sorted x).Perm x.zipIdx := List.mergeSort_perm _ _
  have hvalues : ((Layers.sorted x).map Prod.fst).Perm x := by
    have hvalues := hperm.map Prod.fst
    rwa [List.zipIdx_map_fst] at hvalues
  have hdef : ∀ p ∈ Layers.sorted x, isNaN p.1 = false := fun p hp =>
    hx p.1 (hvalues.mem_iff.mp (List.mem_map_of_mem hp))
  have hsorted : (Layers.sorted x).Pairwise fun p q => value p.1 ≤ value q.1 :=
    (Layers.pairwise_sorted x).imp_of_mem fun hp hq hle =>
      value_le_of_totalOrderKey_le (hdef _ hp) (hdef _ hq) hle
  refine List.ext_getElem? fun i => ?_
  rw [List.getElem?_map]
  cases hi : x[i]? with
  | none =>
    rw [List.getElem?_eq_none_iff] at hi
    exact List.getElem?_eq_none (by rwa [length_averageRanks])
  | some v =>
    -- the runs carry the indices along, and sorting by index puts the ranks back
    have hmem : (v, i) ∈ Layers.sorted x := hperm.mem_iff.mpr (List.mem_zipIdx_iff_getElem?.mpr hi)
    have hrank := mem_rankRuns 0 (Layers.sorted x) hdef hsorted hmem
    rw [zero_add, below_perm hvalues, tied_perm hvalues] at hrank
    have hplace := getElem?_mergeSort_key (map_snd_rankRuns_sorted x) hrank
    show (List.map Prod.fst (List.mergeSort (rankRuns 0 (Layers.sorted x)) _))[i]? = _
    rw [List.getElem?_map, hplace]
    rfl

/-- A value is tied with itself, and what is tied with it is not below it. -/
theorem counts_spec {v : Float} (hv : v ∈ x) : 0 < tied x v ∧ below x v + tied x v ≤ x.length := by
  refine ⟨List.countP_pos_iff.mpr ⟨v, hv, beq_self (hx v hv)⟩, ?_⟩
  have hsplit := List.length_eq_countP_add_countP (fun w => decide (w < v)) (l := x)
  have hothers : tied x v ≤ x.countP fun w => ¬decide (w < v) = true := by
    refine List.countP_mono_left fun w hw htie => ?_
    rw [beq_iff_value (hx w hw) (hx v hv)] at htie
    refine decide_eq_true fun hlt => ?_
    exact ((lt_iff_value (hx w hw) (hx v hv)).mp (of_decide_eq_true hlt)).ne htie
  rw [hsplit]
  exact Nat.add_le_add_left hothers _

theorem rankAmong_spec (hlen : x.length < 2 ^ 52) {v : Float} (hv : v ∈ x) :
    isFinite (rankAmong x v) = true ∧
      value (rankAmong x v) = below x v + (tied x v + 1 : ℚ) / 2 := by
  obtain ⟨htied, hle⟩ := counts_spec hx hv
  exact meanPlace_spec htied (by omega)

end Average

/-! ## The newest value of a window -/

/-- The place can be counted in two ways: halving the sum of the first and the last place, or adding
half the run to what is below. Both are exact. -/
theorem add_half_eq_meanPlace {b t : ℕ} (ht : 0 < t) (hlt : b + t < 2 ^ 52) :
    ofNat b + (ofNat t + 1) / 2 = meanPlace b t := by
  have hone : value (ofNat 1) = 1 := value_one
  have hnext := roundsTo_add (isFinite_ofNat (n := t) (by omega)) (isFinite_ofNat (n := 1) (by decide))
  rw [value_ofNat (by omega), hone,
    show (t : ℚ) + 1 = (t + 1 : ℕ) * 2 ^ (0 : ℤ) by rw [zpow_zero]; push_cast; ring] at hnext
  obtain ⟨hfinite, hvalue⟩ := hnext.units (by omega) (by decide) (by decide)
  have hhalf := roundsTo_half hfinite
  rw [hvalue, zpow_zero, mul_one, div_eq_mul_inv, ← zpow_neg_one] at hhalf
  obtain ⟨hfinite, hvalue⟩ := hhalf.units (by omega) (by decide) (by decide)
  have hsum := roundsTo_add (isFinite_ofNat (n := b) (by omega)) hfinite
  have hplace : (b : ℚ) + (t + 1 : ℕ) * 2 ^ (-1 : ℤ) = (2 * b + t + 1 : ℕ) * 2 ^ (-1 : ℤ) := by
    rw [zpow_neg_one]
    push_cast
    ring
  rw [value_ofNat (by omega), hvalue, hplace] at hsum
  obtain ⟨hfinite, hvalue⟩ := hsum.units (by omega) (by decide) (by decide)
  obtain ⟨hmean, hmeanvalue⟩ := meanPlace_spec ht hlt
  -- both are the same number, and doubles with the same value are the same unless it is 0
  have hsame : value (ofNat b + (ofNat t + ofNat 1) / ofNat 2) = b + (t + 1 : ℚ) / 2 := by
    rw [hvalue, ← hplace, zpow_neg_one]
    push_cast
    ring
  have hne : value (ofNat b + (ofNat t + ofNat 1) / ofNat 2) ≠ 0 := by
    rw [hsame]
    positivity
  exact eq_of_value_eq (isNaN_of_isFinite hfinite) (isNaN_of_isFinite hmean) hne
    (hsame.trans hmeanvalue.symm)

theorem getElem?_newest {w : List Float} (hlen : 0 < w.length) :
    w[w.length - 1]? = some (newest w) := by
  have hne : w ≠ [] := List.ne_nil_of_length_pos hlen
  rw [newest, List.getLastD_eq_getLast?, ← List.getLast?_eq_getElem?, List.getLast?_eq_some_getLast hne]
  rfl

theorem rankOfNewest_eq {w : List Float} (hw : ∀ v ∈ w, isNaN v = false) (htwo : 2 ≤ w.length)
    (hlen : w.length < 2 ^ 52) :
    rankOfNewest w = (rankAmong w (newest w) - 1) / ofNat (w.length - 1) := by
  have hmem : newest w ∈ w := List.mem_of_getElem? (getElem?_newest (by omega))
  obtain ⟨htied, hle⟩ := counts_spec hw hmem
  rw [rankAmong, ← add_half_eq_meanPlace htied (by omega), rankOfNewest, if_neg (by omega)]
  rfl

/-- A rank less one is a share of the other values. -/
theorem isFinite_rankOfNewest {w : List Float} (hw : ∀ v ∈ w, isNaN v = false) (htwo : 2 ≤ w.length)
    (hlen : w.length < 2 ^ 52) : isFinite (rankOfNewest w) = true := by
  have hmem : newest w ∈ w := List.mem_of_getElem? (getElem?_newest (by omega))
  obtain ⟨hfinite, hvalue⟩ := rankAmong_spec hw hlen hmem
  obtain ⟨-, hle⟩ := counts_spec hw hmem
  have hone : value (ofNat 1) = 1 := value_one
  have hdiff := roundsTo_sub hfinite (isFinite_ofNat (n := 1) (by decide))
  have htied : (0 : ℚ) < tied w (newest w) := by exact_mod_cast (counts_spec hw hmem).1
  rw [rankOfNewest_eq hw htwo hlen, isFinite_div_ofNat _ (by omega) (by omega)]
  refine hdiff.finite hfinite ?_ ?_
  · rw [hone, hvalue]
    linarith
  · rw [hone]
    linarith

/-! ## The defined entries of a series -/

section Refill

variable {α : Type} [Number α]

/-- The values are given to the defined entries in their order. -/
theorem getElem?_refill {x : List α} : ∀ {values : List α} {i : ℕ} {v : α}, x[i]? = some v →
    (refill x values)[i]? = some (if isNaN v then nan
      else values.getD (defined (x.take i)).length nan) := by
  induction x with
  | nil =>
    intro values i v hv
    cases hv
  | cons u x ih =>
    intro values i v hv
    cases i with
    | zero =>
      obtain rfl : u = v := Option.some.inj hv
      cases values <;> cases hu : isNaN u <;> simp [refill, hu, defined]
    | succ i =>
      rw [List.getElem?_cons_succ] at hv
      rw [List.take_succ_cons, defined, List.filter_cons]
      -- an undefined entry in front takes none of the values
      cases hu : isNaN u with
      | true =>
        have hrefill : refill (u :: x) values = nan :: refill x values := by
          cases values <;> rw [refill, if_pos hu]
        rw [hrefill, List.getElem?_cons_succ, ih hv]
        rfl
      | false =>
        have hu : ¬isNaN u = true := by rw [hu]; decide
        cases values with
        | nil =>
          rw [refill, if_neg hu, List.getElem?_cons_succ, ih hv]
          rfl
        | cons r values =>
          rw [refill, if_neg hu, List.getElem?_cons_succ, ih hv]
          rfl

theorem isNaN_of_mem_defined {x : List α} {v : α} (h : v ∈ defined x) : isNaN v = false := by
  have hdef := (List.mem_filter.mp h).2
  rwa [Bool.not_eq_true'] at hdef

/-- A defined entry comes after the defined ones before it. -/
theorem getElem?_defined {x : List α} {i : ℕ} {v : α} (hv : x[i]? = some v) (hdef : isNaN v = false) :
    (defined x)[(defined (x.take i)).length]? = some v := by
  obtain ⟨hi, rfl⟩ := List.getElem?_eq_some_iff.mp hv
  have hsplit : x = x.take i ++ x[i] :: x.drop (i + 1) := by
    rw [← List.drop_eq_getElem_cons hi, List.take_append_drop]
  have hhead : defined (x[i] :: x.drop (i + 1)) = x[i] :: defined (x.drop (i + 1)) := by
    rw [defined, List.filter_cons, hdef]
    rfl
  have hdefined : defined x = defined (x.take i) ++ x[i] :: defined (x.drop (i + 1)) := by
    rw [← hhead, defined, defined, defined, ← List.filter_append, ← hsplit]
  rw [hdefined, List.getElem?_append_right le_rfl, Nat.sub_self]
  rfl

end Refill

end Series

open Series

/-- One rank, computed in three ways. -/
structure RanksAgree (x : List Float) : Prop where
  /-- Ranks are counts, from the values below and the values that count as equal. -/
  counts : (∀ v ∈ x, isNaN v = false) → averageRanks x = x.map (rankAmong x)
  /-- The count has no rounding error. -/
  exact : (∀ v ∈ x, isNaN v = false) → x.length < 2 ^ 52 → ∀ (i : ℕ) (v : Float), x[i]? = some v →
    ∃ r, (averageRanks x)[i]? = some r ∧ isFinite r = true ∧
      value r = below x v + (tied x v + 1 : ℚ) / 2
  /-- In a window the newest value is ranked, from 0 to 1. -/
  newest : ∀ (n i : ℕ) (w : List Float), 2 ≤ n → n < 2 ^ 52 → i < x.length →
    trailing? x n i = some w → (∀ v ∈ w, isNaN v = false) →
    ∃ r, (averageRanks w)[n - 1]? = some r ∧
      (Rolling.rank.apply x n)[i]? = some ((r - 1) / ofNat (n - 1))
  /-- The defined entries of a series are ranked where they stand. -/
  defined : ∀ (i : ℕ) (v : Float), x[i]? = some v → isNaN v = false →
    ∃ r, (Series.defined x)[(Series.defined (x.take i)).length]? = some v ∧
      (averageRanks (Series.defined x))[(Series.defined (x.take i)).length]? = some r ∧
      (Transform.rank.apply x)[i]? = some (r / count (Series.defined x))
  /-- The others have no rank, and no bar is lost or added. -/
  undefined : ∀ (i : ℕ) (v : Float), x[i]? = some v → isNaN v = true →
    (Transform.rank.apply x)[i]? = some nan
  length : (Transform.rank.apply x).length = x.length

/-- **Ranks** are the same in all three functions: the average ranks of a list, the rank of the
newest value in a window, and the ranks of a series. All come from one count, of the values below
and half of the way through the values that count as equal; the second is put on a scale from 0 to
1, and the third divided by the number of values.

The first goes through runs of equal values in the sorted list, the second counts, and the third
puts the first back where the values stood. The count is a whole number of halves, so it is exact
while there are fewer than `2 ^ 52` values. -/
theorem ranks_agree (x : List Float) : RanksAgree x := by
  refine ⟨averageRanks_eq, ?_, ?_, ?_, ?_, length_refill x _⟩
  · intro hx hlen i v hv
    refine ⟨rankAmong x v, ?_, rankAmong_spec hx hlen (List.mem_of_getElem? hv)⟩
    rw [averageRanks_eq hx, List.getElem?_map, hv]
    rfl
  · -- the rank in a window, which counts what is below and half of what is tied
    intro n i w htwo hlen hi hw hdef
    obtain rfl := length_of_trailing? hw hi
    refine ⟨rankAmong w (newest w), ?_, ?_⟩
    · rw [averageRanks_eq hdef, List.getElem?_map, getElem?_newest (by omega)]
      rfl
    · have hany : ¬w.any isNaN = true := by
        rw [List.any_eq_true]
        rintro ⟨v, hv, hnan⟩
        exact Bool.false_ne_true ((hdef v hv).symm.trans hnan)
      have hvalue := getElem?_rolling rankOfNewest hw hi
      rw [onWindow, if_neg hany, orNaN_eq_self (isFinite_rankOfNewest hdef htwo hlen),
        rankOfNewest_eq hdef htwo hlen] at hvalue
      exact hvalue
  · -- the rank in a series is that among its defined values
    intro i v hv hdef
    have hplace := getElem?_defined hv hdef
    have hranks : ∀ u ∈ Series.defined x, isNaN u = false := fun _ => isNaN_of_mem_defined
    have hrank : (averageRanks (Series.defined x))[(Series.defined (x.take i)).length]? =
        some (rankAmong (Series.defined x) v) := by
      rw [averageRanks_eq hranks, List.getElem?_map, hplace]
      rfl
    refine ⟨rankAmong (Series.defined x) v, hplace, hrank, ?_⟩
    show (refill x _)[i]? = _
    rw [getElem?_refill hv, hdef, if_neg Bool.false_ne_true, List.getD_eq_getElem?_getD,
      List.getElem?_map, hrank]
    rfl
  · intro i v hv hnan
    show (refill x _)[i]? = _
    rw [getElem?_refill hv, if_pos hnan]

/-- The two zeros share the places 1 and 2, whichever of them is first. -/
theorem ranks_agree_zeros : averageRanks [0, 3, -0] = [1.5, 3, (1.5 : Float)] := by
  rw [(ranks_agree _).counts (by decide +kernel)]
  decide +kernel

end FactorStudy
