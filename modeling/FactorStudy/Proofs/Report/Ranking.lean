import FactorStudy.Proofs.Double.TotalOrder
import FactorStudy.Proofs.Time.ColumnText
import FactorStudy.Report.Ranking

/-!
# Ranked lists

A list is ranked by sorting its summaries, which are then numbered. Sorting looks at a figure or at
the time and never at the numbers, so what is known of the sorted list holds of the numbered one
(`map_numbered`). Figures are compared by their size in the total order: an undefined figure comes
before every number, and numbers come in the order of their magnitudes (`Larger`).

A ranked list is in order and numbered from 1, and so is each of its heads. Ranking does nothing to
such a list (`rankSummaries_eq_self`).
-/

namespace FactorStudy

open Double (Larger larger_of_totalOrderKey_le)

/-! ## What a list is ranked by -/

/-- A summary without its place in a list. -/
def ReportSummary.unranked (s : ReportSummary) : ReportSummary := { s with rank := 0 }

namespace SortKey

/-- The figure that summaries are ranked by, if it is not their time. -/
def figure? : SortKey → Option (ReportSummary → Float)
  | score => some (·.score)
  | icMean => some (·.icMean)
  | sharpe => some (·.sharpe)
  | sortino => some (·.sortino)
  | winRate => some (·.winRate)
  | timestamp => none

/-- Whether two summaries are equal in what they are ranked by. -/
def ties (key : SortKey) (s t : ReportSummary) : Bool :=
  match key.figure? with
  | some figure => totalOrderKey (figure s).abs == totalOrderKey (figure t).abs
  | none => s.timestamp == t.timestamp

variable {key : SortKey} {s t : ReportSummary}

theorem weight_of_figure {figure : ReportSummary → Float} (h : key.figure? = some figure) :
    key.weight s = totalOrderKey (figure s).abs := by
  cases key <;> cases h <;> rfl

theorem weight_of_none (h : key.figure? = none) : key.weight s = s.timestamp.key := by
  cases key <;> cases h
  rfl

theorem ties_iff : key.ties s t = true ↔ key.weight s = key.weight t := by
  unfold ties
  cases h : key.figure? with
  | some figure =>
    rw [weight_of_figure h, weight_of_figure h]
    exact beq_iff_eq
  | none =>
    rw [weight_of_none h, weight_of_none h]
    exact beq_iff_eq.trans ⟨fun h => h ▸ rfl, Timestamp.key_inj⟩

theorem ties_unranked : key.ties s t.unranked = key.ties s t := by
  cases key <;> rfl

theorem before_trans (a b c : ReportSummary) (hab : key.before a b = true)
    (hbc : key.before b c = true) : key.before a c = true :=
  decide_eq_true (Int.le_trans (of_decide_eq_true hbc) (of_decide_eq_true hab))

theorem before_total (a b : ReportSummary) : (key.before a b || key.before b a) = true := by
  rw [Bool.or_eq_true]
  exact (Int.le_total _ _).imp decide_eq_true decide_eq_true

end SortKey

/-! ## Numbered lists -/

/-- Numbers are all that numbering changes. -/
theorem map_numbered {α : Type} {f : ReportSummary → α} (hf : ∀ s n, f { s with rank := n } = f s)
    (ss : List ReportSummary) : (numbered ss).map f = ss.map f := by
  have hpairs : ∀ p : ReportSummary × ℕ, f { p.1 with rank := p.2 + 1 } = (f ∘ Prod.fst) p :=
    fun p => hf p.1 (p.2 + 1)
  rw [numbered, List.map_map]
  calc (ss.zipIdx).map _ = ss.zipIdx.map (f ∘ Prod.fst) := List.map_congr_left fun p _ => hpairs p
    _ = ss.map f := by rw [← List.map_map, List.zipIdx_map_fst]

theorem weight_numbered (key : SortKey) (s : ReportSummary) (n : ℕ) :
    key.weight { s with rank := n } = key.weight s := by
  cases key <;> rfl

theorem map_rank_numbered (ss : List ReportSummary) :
    (numbered ss).map (·.rank) = List.range' 1 ss.length := by
  rw [numbered, List.map_map]
  calc ss.zipIdx.map _ = (ss.zipIdx.map Prod.snd).map (1 + ·) := by
        rw [List.map_map]
        exact List.map_congr_left fun p _ => Nat.add_comm p.2 1
    _ = List.range' 1 ss.length := by rw [List.zipIdx_map_snd, List.map_add_range']

/-- A list that is numbered already stays as it is. -/
theorem numbered_eq_self {ss : List ReportSummary}
    (h : ss.map (·.rank) = List.range' 1 ss.length) : numbered ss = ss := by
  refine List.ext_getElem? fun i => ?_
  rw [numbered, List.getElem?_map, List.getElem?_zipIdx]
  cases hs : ss[i]? with
  | none => rfl
  | some s =>
    have hrank : (ss.map (·.rank))[i]? = some s.rank := by rw [List.getElem?_map, hs]; rfl
    obtain ⟨hi, -⟩ := List.getElem?_eq_some_iff.mp hs
    rw [h, List.getElem?_range' hi, Option.some.injEq] at hrank
    have hplace : 0 + i + 1 = s.rank := by omega
    simp only [Option.map_some, hplace]

/-! ## Ranking -/

theorem perm_map_rankSummaries {α : Type} {f : ReportSummary → α}
    (hf : ∀ s n, f { s with rank := n } = f s) (ss : List ReportSummary) (key : SortKey) :
    ((rankSummaries ss key).map f).Perm (ss.map f) := by
  rw [rankSummaries, map_numbered hf]
  exact (List.mergeSort_perm ss key.before).map f

theorem pairwise_weight_rankSummaries (ss : List ReportSummary) (key : SortKey) :
    ((rankSummaries ss key).map key.weight).Pairwise (· ≥ ·) := by
  rw [rankSummaries, map_numbered (weight_numbered key), List.pairwise_map]
  exact (List.pairwise_mergeSort key.before_trans key.before_total ss).imp of_decide_eq_true

theorem map_rank_rankSummaries (ss : List ReportSummary) (key : SortKey) :
    (rankSummaries ss key).map (·.rank) = List.range' 1 ss.length := by
  rw [rankSummaries, map_rank_numbered, List.length_mergeSort]

theorem length_rankSummaries (ss : List ReportSummary) (key : SortKey) :
    (rankSummaries ss key).length = ss.length := by
  rw [← List.length_map (f := (·.rank)), map_rank_rankSummaries, List.length_range']

/-- Summaries that are equal in what they are ranked by keep their order. -/
theorem filter_ties_mergeSort (ss : List ReportSummary) (key : SortKey) (s : ReportSummary) :
    (ss.mergeSort key.before).filter (key.ties s) = ss.filter (key.ties s) := by
  have hordered : (ss.filter (key.ties s)).Pairwise fun a b => key.before a b = true := by
    refine List.pairwise_of_forall_mem_list fun a ha b hb => ?_
    have hab := (SortKey.ties_iff.mp (List.mem_filter.mp ha).2).symm.trans
      (SortKey.ties_iff.mp (List.mem_filter.mp hb).2)
    exact decide_eq_true hab.ge
  -- they are in order as they stand, so the sort keeps them as a sublist, and it has no others
  have hkept := (List.sublist_mergeSort key.before_trans key.before_total hordered
    List.filter_sublist).filter (key.ties s)
  simp only [List.filter_filter, Bool.and_self] at hkept
  refine (hkept.eq_of_length ?_).symm
  exact ((List.mergeSort_perm ss key.before).symm.filter _).length_eq

/-- A list that is in order and numbered is ranked. -/
theorem rankSummaries_eq_self {ss : List ReportSummary} {key : SortKey}
    (hordered : (ss.map key.weight).Pairwise (· ≥ ·))
    (hranks : ss.map (·.rank) = List.range' 1 ss.length) : rankSummaries ss key = ss := by
  rw [List.pairwise_map] at hordered
  have hbefore : ss.Pairwise fun a b => key.before a b = true := hordered.imp decide_eq_true
  rw [rankSummaries, List.mergeSort_of_pairwise hbefore]
  exact numbered_eq_self hranks

/-- The head of a ranked list is ranked. -/
theorem rankSummaries_take (ss : List ReportSummary) (key : SortKey) (n : ℕ) :
    rankSummaries ((rankSummaries ss key).take n) key = (rankSummaries ss key).take n := by
  refine rankSummaries_eq_self ?_ ?_
  · rw [List.map_take]
    exact (pairwise_weight_rankSummaries ss key).sublist (List.take_sublist _ _)
  · rw [List.map_take, map_rank_rankSummaries, List.length_take, length_rankSummaries]
    rcases Nat.le_total n ss.length with h | h
    · rw [Nat.min_eq_left h, List.take_range'_of_length_ge h]
    · rw [Nat.min_eq_right h, List.take_range'_of_length_le h]

/-- What it is for `ts` to be the list `ss` ranked by a key. -/
structure Ranked (key : SortKey) (ss ts : List ReportSummary) : Prop where
  /-- It has the same summaries, but for their ranks, -/
  perm : (ts.map (·.unranked)).Perm (ss.map (·.unranked))
  /-- which count from 1. -/
  ranks : ts.map (·.rank) = List.range' 1 ss.length
  /-- No figure is followed by one whose size comes later in the total order: -/
  sizes : ∀ figure, key.figure? = some figure →
    ts.Pairwise fun s t => totalOrderKey (figure t).abs ≤ totalOrderKey (figure s).abs
  /-- the undefined ones stand first, and the others by their magnitudes. -/
  figures : ∀ figure, key.figure? = some figure →
    ts.Pairwise fun s t => Larger (figure s) (figure t)
  /-- By time, the newest stands first. -/
  times : key.figure? = none → ts.Pairwise fun s t => t.timestamp ≤ s.timestamp
  /-- Those that are equal in what the list is ranked by stand in the order they had. -/
  stable : ∀ s,
    (ts.filter (key.ties s)).map (·.unranked) = (ss.filter (key.ties s)).map (·.unranked)

theorem ranked_rankSummaries (ss : List ReportSummary) (key : SortKey) :
    Ranked key ss (rankSummaries ss key) := by
  have hweights := pairwise_weight_rankSummaries ss key
  rw [List.pairwise_map] at hweights
  have hsizes : ∀ figure, key.figure? = some figure → (rankSummaries ss key).Pairwise fun s t =>
      totalOrderKey (figure t).abs ≤ totalOrderKey (figure s).abs := by
    intro figure hfigure
    refine hweights.imp fun h => ?_
    rwa [SortKey.weight_of_figure hfigure, SortKey.weight_of_figure hfigure] at h
  refine ⟨perm_map_rankSummaries (fun _ _ => rfl) ss key, map_rank_rankSummaries ss key, hsizes,
    fun figure h => (hsizes figure h).imp larger_of_totalOrderKey_le, fun h => ?_, fun s => ?_⟩
  · refine hweights.imp fun hle => ?_
    rwa [SortKey.weight_of_none h, SortKey.weight_of_none h] at hle
  · -- what a summary ties with does not depend on its rank, nor does its unranked form
    have hties : key.ties s = key.ties s ∘ (·.unranked) := funext fun t =>
      SortKey.ties_unranked.symm
    rw [hties, ← List.filter_map, ← List.filter_map, rankSummaries, map_numbered fun _ _ => rfl,
      List.filter_map, List.filter_map, ← hties, filter_ties_mergeSort]

/-- **Ranking** puts the summaries of a list in order by a key and numbers them. Ranking the result
by the same key again does nothing, nor does ranking what is left of it under a limit.

The sort is stable and goes by the total order of the sizes, in which an undefined figure has a
place too. A list in that order, or the beginning of one, is left as it is. -/
theorem ranking (ss : List ReportSummary) (key : SortKey) :
    Ranked key ss (rankSummaries ss key) ∧
      rankSummaries (rankSummaries ss key) key = rankSummaries ss key ∧
      ∀ limit, (Rankings.top (rankSummaries ss key) limit).total = ss.length ∧
        (Rankings.top (rankSummaries ss key) limit).reports =
          (rankSummaries ss key).take (limit.getD ss.length) ∧
        rankSummaries (Rankings.top (rankSummaries ss key) limit).reports key =
          (Rankings.top (rankSummaries ss key) limit).reports := by
  have hlength := length_rankSummaries ss key
  have hall : (rankSummaries ss key).take ss.length = rankSummaries ss key :=
    List.take_of_length_le hlength.le
  have hagain : rankSummaries (rankSummaries ss key) key = rankSummaries ss key := by
    have h := rankSummaries_take ss key ss.length
    rwa [hall] at h
  refine ⟨ranked_rankSummaries ss key, hagain, fun limit => ⟨hlength, ?_⟩⟩
  cases limit with
  | none => exact ⟨hall.symm, hagain⟩
  | some n => exact ⟨rfl, rankSummaries_take ss key n⟩

end FactorStudy
