import Mathlib.Data.List.Perm.Basic
import FactorStudy.Study.Combination
import FactorStudy.Proofs.Double.Finite

/-!
# Combined factors

Parts are taken in one after the other, and each of them position by position. What has been added
up at a position is no concern of any other, so a combination can be read position by position as
well, as the sum of what the parts contribute there (`combine_eq`).

A part without a z-score at a position is passed over and not counted as 0, which is the same for the
sum but not for the position: without any z-score it has no value. So which positions have values is
settled by the series, whatever their weights and their order (`Combination.covered`), and a part
that has no z-scores at all can stand anywhere or nowhere.
-/

namespace FactorStudy

open Number Double Series

namespace Combination

/-! ## Position by position -/

/-- A loop over the values of a list, counted from `k`, changes each position once. -/
theorem getElem?_foldl_modify {α β : Type} (f : α → β → β) (z : List α) (i : ℕ) :
    ∀ (k : ℕ) (a : Array β), ((z.zipIdx k).foldl (fun a (v, j) => a.modify j (f v)) a)[i]? =
      if k ≤ i then (match z[i - k]? with
        | some v => a[i]?.map (f v)
        | none => a[i]?)
      else a[i]? := by
  induction z with
  | nil =>
    intro k a
    split <;> rfl
  | cons v z ih =>
    intro k a
    rw [List.zipIdx_cons, List.foldl_cons, ih, Array.getElem?_modify]
    rcases Nat.lt_trichotomy i k with hlt | rfl | hgt
    · -- the loop never comes to the position
      rw [if_neg (by omega), if_neg (by omega), if_neg (by omega)]
    · rw [if_neg (by omega), if_pos rfl, if_pos le_rfl, Nat.sub_self, List.getElem?_cons_zero]
    · have hnext : i - k = i - (k + 1) + 1 := by omega
      rw [if_pos (by omega), if_neg (by omega), if_pos (by omega), hnext, List.getElem?_cons_succ]

section Positions

variable {α : Type} [Number α]

/-- The contributions at position `i`, in order. -/
def contributions (parts : List (List α × α)) (i : ℕ) : List α :=
  parts.filterMap fun (z, weight) => (z[i]?.filter fun v => !isNaN v).map (weight * ·)

/-- The sum of contributions, undefined without any. -/
def total (contributions : List α) : α :=
  if contributions.isEmpty then nan else contributions.foldl (· + ·) 0

/-- The tally of a position with the contribution of a part, if it makes one. -/
def Tally.take (i : ℕ) (t : Tally α) (part : FactorSeries α × α) : Tally α :=
  match (standardize part.1.values)[i]? with
  | some v => t.add part.2 v
  | none => t

theorem getElem?_addPart (tallies : Array (Tally α)) (part : FactorSeries α × α) (i : ℕ) :
    (addPart tallies part)[i]? = tallies[i]?.map (Tally.take i · part) := by
  rw [addPart, getElem?_foldl_modify, if_pos (Nat.zero_le i), Nat.sub_zero]
  unfold Tally.take
  cases (standardize part.1.values)[i]? with
  | none => rw [Option.map_id']
  | some v => rfl

/-- **What the loops leave at a position** is what the parts make of it one by one. -/
theorem getElem?_foldl_addPart (parts : List (FactorSeries α × α)) (i : ℕ) :
    ∀ tallies : Array (Tally α), (parts.foldl addPart tallies)[i]? =
      tallies[i]?.map fun t => parts.foldl (Tally.take i) t := by
  induction parts with
  | nil =>
    intro tallies
    exact Option.map_id'.symm
  | cons part parts ih =>
    intro tallies
    rw [List.foldl_cons, ih, getElem?_addPart, Option.map_map]
    rfl

/-- The parts with their series standardized. -/
def scored (parts : List (FactorSeries α × α)) : List (List α × α) :=
  parts.map fun (s, weight) => (standardize s.values, weight)

theorem contributions_cons (z : List α) (weight : α) (parts : List (List α × α)) (i : ℕ) :
    contributions ((z, weight) :: parts) i =
      ((z[i]?.filter fun v => !isNaN v).map (weight * ·)).toList ++ contributions parts i := by
  cases hterm : (z[i]?.filter fun v => !isNaN v).map (weight * ·) with
  | none => exact List.filterMap_cons_none hterm
  | some term => exact List.filterMap_cons_some hterm

/-- A tally with a part taken in has that part's contribution, if there is one. -/
theorem take_eq (i : ℕ) (t : Tally α) (part : FactorSeries α × α) :
    t.take i part = match (((standardize part.1.values)[i]?.filter fun v => !isNaN v).map
        (part.2 * ·)) with
      | some term => ⟨t.total + term, true⟩
      | none => t := by
  unfold Tally.take Tally.add
  cases (standardize part.1.values)[i]? with
  | none => rfl
  | some v =>
    show (if isNaN v then t else _) = _
    rw [Option.filter_some]
    cases isNaN v <;> rfl

/-- The tally of a position is the sum of the contributions to it. -/
theorem foldl_take (parts : List (FactorSeries α × α)) (i : ℕ) : ∀ t : Tally α,
    parts.foldl (Tally.take i) t =
      ⟨(contributions (scored parts) i).foldl (· + ·) t.total,
        t.covered || !(contributions (scored parts) i).isEmpty⟩ := by
  induction parts with
  | nil =>
    intro t
    exact congrArg (Tally.mk t.total) (Bool.or_false _).symm
  | cons part parts ih =>
    intro t
    have hscored : scored (part :: parts) =
        (standardize part.1.values, part.2) :: scored parts := rfl
    rw [List.foldl_cons, ih, take_eq, hscored, contributions_cons]
    cases ((standardize part.1.values)[i]?.filter fun v => !isNaN v).map (part.2 * ·) with
    | none => rfl
    | some term =>
      show Tally.mk _ (true || _) = Tally.mk _ (t.covered || true)
      rw [Bool.true_or, Bool.or_true]
      rfl

/-- **A combination, position by position.** Where the loops have left the tally of a position
covered, some part has contributed there, and the tally is the sum of all contributions. -/
theorem combine_eq (parts : List (FactorSeries α × α)) : combine parts =
    .ofValues ((List.range (size parts)).map fun i => total (contributions (scored parts) i)) := by
  rw [combine]
  refine congrArg FactorSeries.ofValues (List.ext_getElem? fun i => ?_)
  rw [List.getElem?_map, Array.getElem?_toList, getElem?_foldl_addPart, Array.getElem?_replicate,
    List.getElem?_map]
  split
  · rename_i hi
    rw [List.getElem?_range hi, Option.map_some, Option.map_some,
      Option.map_some, foldl_take, Tally.value, total, Bool.false_or]
    cases (contributions (scored parts) i).isEmpty <;> rfl
  · rename_i hi
    rw [List.getElem?_eq_none (by rw [List.length_range]; omega)]
    rfl

end Positions

/-! ## Z-scores -/

/-- The z-score of a series at a position, if there is one. -/
def zscore? (s : FactorSeries Float) (i : ℕ) : Option Float :=
  (standardize s.values)[i]?.filter fun v => !isNaN v

/-- A sum so far with the contribution of a part, if it makes one. -/
def takeIn (i : ℕ) (sum : Float) (part : FactorSeries Float × Float) : Float :=
  match zscore? part.1 i with
  | some z => sum + part.2 * z
  | none => sum

/-- The positions with a contribution. -/
def covered (parts : List (FactorSeries Float × Float)) : Set ℕ :=
  {i | contributions (scored parts) i ≠ []}

/-- A series without a z-score. -/
def Unscored (s : FactorSeries Float) : Prop := ∀ i, zscore? s i = none

theorem zscore?_nowhere {s : FactorSeries Float} (h : standardize s.values = nowhere s.values) :
    Unscored s := by
  intro i
  rw [zscore?, h, nowhere, List.getElem?_map]
  cases s.values[i]? with
  | none => rfl
  | some v => rw [Option.map_some, Option.filter_some, isNaN_nan, if_neg (by decide)]

/-- Fewer than two values have no z-scores. -/
theorem unscored_of_few {s : FactorSeries Float} (h : s.definedCount < 2) : Unscored s := by
  refine zscore?_nowhere ?_
  have hstd : std? (defined s.values) = none := by
    rw [std?, variance?, if_pos (show (defined s.values).length < 2 from h), Option.map_none]
  rw [standardize, hstd]
  cases mean? (defined s.values) with
  | none => rfl
  | some m => rfl

/-- Values without spread, as it is computed, have none either. -/
theorem unscored_of_flat {s : FactorSeries Float} {sd : Float}
    (hstd : std? (defined s.values) = some sd) (hzero : (sd == 0) = true) : Unscored s := by
  refine zscore?_nowhere ?_
  rw [standardize, hstd]
  cases mean? (defined s.values) with
  | none => rfl
  | some m => exact if_neg (not_lt_of_beq_zero hzero).1

/-! ## Contributions -/

theorem contributions_eq (parts : List (FactorSeries Float × Float)) (i : ℕ) :
    contributions (scored parts) i =
      parts.filterMap fun part => (zscore? part.1 i).map (part.2 * ·) := by
  rw [contributions, scored, List.filterMap_map]
  rfl

theorem mem_covered_iff {parts : List (FactorSeries Float × Float)} {i : ℕ} :
    i ∈ covered parts ↔ ∃ s ∈ parts.map Prod.fst, (zscore? s i).isSome := by
  rw [covered, Set.mem_ofPred_eq, contributions_eq, ne_eq, List.filterMap_eq_nil_iff]
  simp [Option.isSome_iff_ne_none]

/-- The sum of the contributions takes in the parts one by one. -/
theorem foldl_contributions (parts : List (FactorSeries Float × Float)) (i : ℕ) :
    (contributions (scored parts) i).foldl
      (· + ·) 0 = parts.foldl (takeIn i) 0 := by
  rw [contributions_eq, List.foldl_filterMap]
  congr 1
  funext sum part
  rw [takeIn]
  cases zscore? part.1 i with
  | none => rfl
  | some z => rfl

/-! ## The size -/

theorem size_combine (parts : List (FactorSeries Float × Float)) :
    (combine parts).size = size parts := by
  rw [combine_eq]
  show (Series.clean _).length = _
  rw [Series.clean, List.length_map, List.length_map, List.length_range]

theorem getElem?_combine {parts : List (FactorSeries Float × Float)} {i : ℕ}
    (hi : i < (combine parts).size) : (combine parts).values[i]? =
      some (orNaN (total (contributions (scored parts) i))) := by
  rw [size_combine] at hi
  rw [combine_eq]
  show (Series.clean _)[i]? = _
  rw [Series.clean, List.getElem?_map, List.getElem?_map, List.getElem?_range hi, Option.map_some,
    Option.map_some]

/-- No part is longer than a combination, and the longest is as long. -/
theorem size_spec (parts : List (FactorSeries Float × Float)) :
    (∀ part ∈ parts, part.1.size ≤ size parts) ∧
      (size parts = 0 ∨ ∃ part ∈ parts, part.1.size = size parts) := by
  rw [size, List.foldl_max]
  cases hmax : (parts.map fun (s, _) => s.size).max? with
  | none =>
    have hnil : parts = [] := List.map_eq_nil_iff.mp (List.max?_eq_none_iff.mp hmax)
    rw [hnil]
    exact ⟨nofun, Or.inl rfl⟩
  | some n =>
    obtain ⟨hmem, hle⟩ := List.max?_eq_some_iff.mp hmax
    rw [Option.getD_some, Nat.zero_max]
    exact ⟨fun part hpart => hle _ (List.mem_map_of_mem hpart), Or.inr (List.mem_map.mp hmem)⟩

/-! ## A part more -/

variable {before after : List (FactorSeries Float × Float)} {part : FactorSeries Float × Float}

theorem size_insert (hsize : part.1.size ≤ size (before ++ after)) :
    size (before ++ part :: after) = size (before ++ after) := by
  -- a maximum does not depend on the order, so the part can be the last one
  have hperm : ((before ++ part :: after).map fun p => p.1.size).Perm
      (((before ++ after).map fun p => p.1.size) ++ [part.1.size]) := by
    rw [← List.map_singleton (f := fun p : FactorSeries Float × Float => p.1.size),
      ← List.map_append]
    refine List.Perm.map _ ?_
    exact List.perm_middle.trans (List.perm_append_singleton part (before ++ after)).symm
  have hfold := hperm.foldl_eq (f := max) 0
  rw [List.foldl_append, List.foldl_cons, List.foldl_nil] at hfold
  exact hfold.trans (max_eq_left hsize)

/-- A part without z-scores that is not too long makes no difference. -/
theorem combine_insert (hpart : Unscored part.1) (hsize : part.1.size ≤ size (before ++ after)) :
    combine (before ++ part :: after) = combine (before ++ after) := by
  have hsame : ∀ i, contributions (scored (before ++ part :: after)) i =
      contributions (scored (before ++ after)) i := by
    intro i
    rw [contributions_eq, contributions_eq, List.filterMap_append, List.filterMap_append,
      List.filterMap_cons, hpart i, Option.map_none]
  rw [combine_eq, combine_eq, size_insert hsize]
  simp only [hsame]

/-! ## The combination -/

/-- What a combination is. -/
structure Combined (parts : List (FactorSeries Float × Float)) : Prop where
  /-- It is as long as the longest part. -/
  size_le : ∀ part ∈ parts, part.1.size ≤ (combine parts).size
  size_attained : (combine parts).size = 0 ∨ ∃ part ∈ parts, part.1.size = (combine parts).size
  /-- It is undefined where no part has a z-score. -/
  uncovered : ∀ i < (combine parts).size, (∀ part ∈ parts, zscore? part.1 i = none) →
    (combine parts).values[i]? = some nan
  /-- Elsewhere it is the sum of the weighted z-scores that are there, in the order of the parts and
  from 0, or undefined where this is not finite. -/
  weighted : ∀ i < (combine parts).size, (∃ part ∈ parts, (zscore? part.1 i).isSome) →
    (combine parts).values[i]? = some (orNaN (parts.foldl (takeIn i) 0))
  /-- A part without z-scores can be put anywhere, if it is not longer than the others. -/
  unscored : ∀ before after part, parts = before ++ after → Unscored part.1 →
    part.1.size ≤ (combine parts).size → combine (before ++ part :: after) = combine parts
  /-- A series has none if it has no two values, -/
  few : ∀ s : FactorSeries Float, s.definedCount < 2 → Unscored s
  /-- or if the deviation of its values is computed as 0. -/
  flat : ∀ (s : FactorSeries Float) sd, std? (defined s.values) = some sd → (sd == 0) = true →
    Unscored s
  /-- Neither order nor weights have to do with where there are contributions. -/
  covered_eq : ∀ parts', (parts'.map Prod.fst).Perm (parts.map Prod.fst) →
    covered parts' = covered parts
  /-- There are contributions where some part has a z-score. -/
  mem_covered : ∀ i, i ∈ covered parts ↔ ∃ part ∈ parts, (zscore? part.1 i).isSome

/-- **Combinations** are weighted sums of the z-scores that are there. A combination is as long as
its longest part and undefined where no part has a z-score. A part without any can be left out,
wherever it stands, if it is not longer than the others; and whether there is a value to be summed
has nothing to do with the order of the parts or with their weights.

The loop over the parts adds to a whole list at a time (`combine`). At each bar that comes to a sum
over the parts (`combine_eq`), which is what all of this is read from. -/
theorem combined (parts : List (FactorSeries Float × Float)) : Combined parts := by
  obtain ⟨hle, hattained⟩ := size_spec parts
  -- a bar is covered if some part has a score there; the rest is read off the sums
  have hcovered : ∀ i, i ∈ covered parts ↔ ∃ part ∈ parts, (zscore? part.1 i).isSome := by
    intro i
    rw [mem_covered_iff]
    simp
  rw [← size_combine] at hle hattained
  refine ⟨hle, hattained, ?_, ?_, ?_, fun s => unscored_of_few, fun s sd => unscored_of_flat, ?_,
    hcovered⟩
  · intro i hi hnone
    have hempty : i ∉ covered parts := by
      rw [hcovered]
      rintro ⟨part, hpart, hsome⟩
      rw [hnone part hpart] at hsome
      cases hsome
    rw [covered, Set.mem_ofPred_eq, not_not] at hempty
    rw [getElem?_combine hi, hempty]
    rfl
  · intro i hi hsome
    have hne : i ∈ covered parts := (hcovered i).mpr hsome
    rw [covered, Set.mem_ofPred_eq, ← List.isEmpty_eq_false_iff] at hne
    rw [getElem?_combine hi, total, hne, if_neg Bool.false_ne_true, foldl_contributions]
  · rintro before after part rfl hpart hsize
    rw [size_combine] at hsize
    exact combine_insert hpart hsize
  · intro parts' hperm
    ext i
    rw [mem_covered_iff, mem_covered_iff]
    simp only [hperm.mem_iff]

end Combination

end FactorStudy
