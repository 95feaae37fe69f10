import Mathlib.Data.List.SplitBy
import Mathlib.Data.Prod.Lex
import FactorStudy.Study.Analysis
import FactorStudy.Proofs.Time.ColumnText

/-!
# Monthly information coefficients

The program cuts the observations into runs of one month, so a month would come up twice if an
observation of another stood between two of its own. None does when the times increase, as the month
of a time does not decrease with it: the runs are then the groups of the observations by month
(`mem_splitBy_iff`), in the order of the months (`pairwise_splitBy`).

What is correlated for a month is told here without runs, by the positions at which the times are in
the month (`Ic.positions`).
-/

namespace FactorStudy

/-! ## Runs of one key -/

section Runs

variable {β γ : Type} {k : β → γ} {r : β → β → Bool} {l : List β}
  (hr : ∀ a b, r a b = true ↔ k a = k b)

include hr

/-- A run has one key. -/
theorem key_eq_of_mem_splitBy {run : List β} (hrun : run ∈ l.splitBy r) {a b : β} (ha : a ∈ run)
    (hb : b ∈ run) : k a = k b := by
  have hchain : run.IsChain fun a b => k a = k b :=
    (List.isChain_of_mem_splitBy hrun).imp fun a b => (hr a b).mp
  have htrans : IsTrans β fun a b => k a = k b := ⟨fun _ _ _ => Eq.trans⟩
  have hsymm : Std.Symm fun a b : β => k a = k b := ⟨fun _ _ => Eq.symm⟩
  exact List.Pairwise.forall_of_forall (R := fun a b => k a = k b) (fun _ _ => rfl) hchain.pairwise
    ha hb

variable [LinearOrder γ]

/-- Runs of one key each, of which no two in a row have the same, increase if they do not decrease. -/
theorem pairwise_runs {runs : List (List β)}
    (hkey : ∀ s ∈ runs, ∀ a ∈ s, ∀ b ∈ s, k a = k b)
    (hle : runs.Pairwise fun s t => ∀ a ∈ s, ∀ b ∈ t, k a ≤ k b)
    (hnext : runs.IsChain fun s t => ∃ hs ht, r (s.getLast hs) (t.head ht) = false) :
    runs.Pairwise fun s t => ∀ a ∈ s, ∀ b ∈ t, k a < k b := by
  induction runs with
  | nil => exact List.Pairwise.nil
  | cons s runs ih =>
    obtain ⟨hfirst, hrest⟩ := List.pairwise_cons.mp hle
    have hlater := ih (fun t ht => hkey t (List.mem_cons_of_mem s ht)) hrest hnext.tail
    refine List.pairwise_cons.mpr ⟨fun t ht a ha b hb => ?_, hlater⟩
    refine lt_of_le_of_ne (hfirst t ht a ha b hb) fun heq => ?_
    cases runs with
    | nil => cases ht
    | cons u runs =>
      -- the run behind this one stands between it and any other, and would have their key
      obtain ⟨hs, hu, hdiffer⟩ := (List.isChain_cons_cons.mp hnext).1
      have hlast : k (s.getLast hs) = k a :=
        hkey s List.mem_cons_self _ (List.getLast_mem hs) a ha
      have hlow : k a ≤ k (u.head hu) := hfirst u List.mem_cons_self a ha _ (List.head_mem hu)
      have hhigh : k (u.head hu) ≤ k b := by
        rcases List.mem_cons.mp ht with rfl | ht'
        · exact (hkey t (List.mem_cons_of_mem s List.mem_cons_self) _ (List.head_mem hu) b hb).le
        · exact ((List.pairwise_cons.mp hlater).1 t ht' _ (List.head_mem hu) b hb).le
      rw [(hr _ _).mpr (hlast.trans (le_antisymm hlow (heq ▸ hhigh)))] at hdiffer
      cases hdiffer

variable (hl : l.Pairwise fun a b => k a ≤ k b)

include hl

/-- The keys of the runs increase when those of the list do not decrease. -/
theorem pairwise_splitBy : (l.splitBy r).Pairwise fun s t => ∀ a ∈ s, ∀ b ∈ t, k a < k b := by
  rw [← List.flatten_splitBy r l, List.pairwise_flatten] at hl
  exact pairwise_runs hr (fun s hs a ha b hb => key_eq_of_mem_splitBy hr hs ha hb) hl.2
    (List.isChain_getLast_head_splitBy r l)

/-- A run has all entries of its key. -/
theorem eq_filter_of_mem_splitBy {run : List β} (hrun : run ∈ l.splitBy r) {a : β} (ha : a ∈ run) :
    run = l.filter fun b => k b = k a := by
  obtain ⟨before, after, hsplit⟩ := List.append_of_mem hrun
  have hpairwise := pairwise_splitBy hr hl
  rw [hsplit, List.pairwise_append] at hpairwise
  obtain ⟨-, hafter, hbefore⟩ := hpairwise
  -- runs before have smaller keys and runs after have larger ones
  have hlow : before.flatten.filter (fun b => k b = k a) = [] := by
    rw [List.filter_eq_nil_iff]
    intro b hb
    obtain ⟨t, ht, hbt⟩ := List.mem_flatten.mp hb
    rw [decide_eq_true_eq]
    exact (hbefore t ht run List.mem_cons_self b hbt a ha).ne
  have hhigh : after.flatten.filter (fun b => k b = k a) = [] := by
    rw [List.filter_eq_nil_iff]
    intro b hb
    obtain ⟨t, ht, hbt⟩ := List.mem_flatten.mp hb
    rw [decide_eq_true_eq]
    exact ((List.pairwise_cons.mp hafter).1 t ht a ha b hbt).ne'
  have hself : run.filter (fun b => k b = k a) = run := by
    rw [List.filter_eq_self]
    intro b hb
    exact decide_eq_true (key_eq_of_mem_splitBy hr hrun hb ha)
  conv_rhs => rw [← List.flatten_splitBy r l, hsplit, List.flatten_append, List.flatten_cons,
    List.filter_append, List.filter_append, hlow, hself, hhigh, List.append_nil, List.nil_append]

/-- **The runs are the groups**: all entries of a key, in their order. -/
theorem mem_splitBy_iff {run : List β} :
    run ∈ l.splitBy r ↔ run ≠ [] ∧ ∃ m, run = l.filter fun a => k a = m := by
  constructor
  · intro hrun
    have hne := List.ne_nil_of_mem_splitBy hrun
    exact ⟨hne, _, eq_filter_of_mem_splitBy hr hl hrun (List.head_mem hne)⟩
  · rintro ⟨hne, m, rfl⟩
    obtain ⟨a, ha⟩ := List.exists_mem_of_ne_nil _ hne
    obtain ⟨hmem, hkey⟩ := List.mem_filter.mp ha
    rw [← List.flatten_splitBy r l, List.mem_flatten] at hmem
    obtain ⟨s, hs, has⟩ := hmem
    have hsame := eq_filter_of_mem_splitBy hr hl hs has
    rw [of_decide_eq_true hkey] at hsame
    exact hsame ▸ hs

end Runs

/-! ## Positions -/

theorem filterMap_range_getElem? {β : Type} (l : List β) :
    (List.range l.length).filterMap (l[·]?) = l := by
  have hsome : (List.range l.length).map (l[·]?) = l.map some := by
    refine List.ext_getElem (by simp) fun i hi hi' => ?_
    simp
  rw [← Function.id_comp (fun i => l[i]?), ← List.filterMap_map, hsome, List.filterMap_map]
  exact List.filterMap_some

/-- Entries can be picked by position. -/
theorem filter_eq_filterMap_range {β : Type} (p : β → Bool) (l : List β) :
    l.filter p = ((List.range l.length).filter fun i => l[i]?.any p).filterMap (l[·]?) := by
  conv_lhs => rw [← filterMap_range_getElem? l]
  rw [List.filter_filterMap, List.filterMap_filter]
  refine List.filterMap_congr fun i _ => ?_
  cases l[i]? with
  | none => rfl
  | some a => rw [Option.filter_some, Option.any_some]

/-! ## Months -/

/-- The calendar month of a time. -/
def Timestamp.month (t : Timestamp) : ℤ × ℕ := (t.date.year, t.date.month)

/-- The month of a time does not decrease with it. -/
theorem Timestamp.month_le {t u : Timestamp} (h : t < u) : toLex t.month ≤ toLex u.month := by
  have hkey : t.key < u.key := h
  have hmonths := t.date.month_mem
  have hmonths' := u.date.month_mem
  have hdays := t.date.day_mem.2.trans (daysInMonth_le _ _)
  have hdays' := u.date.day_mem.2.trans (daysInMonth_le _ _)
  have hseconds := t.second_lt
  have hseconds' := u.second_lt
  have hnanos := t.nano_lt
  have hnanos' := u.nano_lt
  unfold Timestamp.key Date.key at hkey
  rw [Prod.Lex.toLex_le_toLex]
  show t.date.year < u.date.year ∨ t.date.year = u.date.year ∧ t.date.month ≤ u.date.month
  omega

namespace Ic

open Number Series

/-- The positions below the shortest length at which the times are in a month. -/
def positions (times : List Timestamp) (factor returns : List Float) (month : ℤ × ℕ) : List ℕ :=
  (List.range (min times.length (min factor.length returns.length))).filter fun i =>
    times[i]?.any fun t => t.month = month

/-- The values at some positions. -/
def picked (x : List Float) (positions : List ℕ) : List Float := positions.filterMap (x[·]?)

section Samples

variable (times : List Timestamp) (factor returns : List Float)

/-- The samples of a study, as `monthly` takes them from the three lists. -/
def samples : List (Sample Float) :=
  (times.zip (factor.zip returns)).map fun (t, f, r) => Sample.mk t f r

theorem length_samples : (samples times factor returns).length =
    min times.length (min factor.length returns.length) := by
  rw [samples, List.length_map, List.length_zip, List.length_zip]

variable {times factor returns}

theorem getElem?_samples {i : ℕ} (hi : i < (samples times factor returns).length) :
    ∃ s, (samples times factor returns)[i]? = some s ∧ times[i]? = some s.timestamp ∧
      factor[i]? = some s.factor ∧ returns[i]? = some s.forward := by
  have hlen := hi
  rw [length_samples] at hlen
  refine ⟨⟨times[i], factor[i], returns[i]⟩, ?_, ?_, ?_, ?_⟩
  · rw [List.getElem?_eq_getElem hi]
    simp [samples]
  all_goals exact List.getElem?_eq_getElem _

/-- The samples of a month. -/
def group (times : List Timestamp) (factor returns : List Float) (month : ℤ × ℕ) :
    List (Sample Float) :=
  (samples times factor returns).filter fun s => s.month = month

theorem positions_eq (month : ℤ × ℕ) : positions times factor returns month =
    (List.range (samples times factor returns).length).filter fun i =>
      (samples times factor returns)[i]?.any fun s => s.month = month := by
  rw [positions, ← length_samples]
  refine List.filter_congr fun i hi => ?_
  obtain ⟨s, hs, ht, -⟩ := getElem?_samples (List.mem_range.mp hi)
  rw [hs, ht]
  rfl

/-- The samples of a month are those at its positions. -/
theorem group_eq (month : ℤ × ℕ) : group times factor returns month =
    (positions times factor returns month).filterMap ((samples times factor returns)[·]?) := by
  rw [group, filter_eq_filterMap_range, ← positions_eq]

theorem exists_sample {month : ℤ × ℕ} {i : ℕ} (hi : i ∈ positions times factor returns month) :
    ∃ s, (samples times factor returns)[i]? = some s ∧ factor[i]? = some s.factor ∧
      returns[i]? = some s.forward := by
  rw [positions_eq] at hi
  obtain ⟨s, hs, -, hvalues⟩ := getElem?_samples (List.mem_range.mp (List.mem_filter.mp hi).1)
  exact ⟨s, hs, hvalues⟩

theorem length_group (month : ℤ × ℕ) :
    (group times factor returns month).length = (positions times factor returns month).length := by
  rw [group_eq, List.length_filterMap_eq_countP, List.countP_eq_length]
  intro i hi
  obtain ⟨s, hs, -⟩ := exists_sample hi
  rw [hs, Option.isSome_some]

theorem map_factor_group (month : ℤ × ℕ) : (group times factor returns month).map (·.factor) =
    picked factor (positions times factor returns month) := by
  rw [group_eq, List.map_filterMap, picked]
  refine List.filterMap_congr fun i hi => ?_
  obtain ⟨s, hs, hx, -⟩ := exists_sample hi
  rw [hs, hx, Option.map_some]

theorem map_forward_group (month : ℤ × ℕ) : (group times factor returns month).map (·.forward) =
    picked returns (positions times factor returns month) := by
  rw [group_eq, List.map_filterMap, picked]
  refine List.filterMap_congr fun i hi => ?_
  obtain ⟨s, hs, -, hx⟩ := exists_sample hi
  rw [hs, hx, Option.map_some]

end Samples

/-- The coefficient of a run of samples, with its month, if the run is long enough. -/
def ofRun? (least : ℕ) (run : List (Sample Float)) : Option ((ℤ × ℕ) × Float) :=
  match run with
  | [] => none
  | first :: _ =>
    if run.length < least then none
    else (spearman? (run.map (·.factor)) (run.map (·.forward))).map fun ic => (first.month, ic)

theorem monthly_eq (times : List Timestamp) (factor returns : List Float) (least : ℕ) :
    monthly times factor returns least =
      ((samples times factor returns).splitBy fun a b => a.month == b.month).filterMap
        (ofRun? least) := by
  refine List.filterMap_congr fun run _ => ?_
  cases run with
  | nil => rfl
  | cons first rest => rfl

theorem ofRun?_eq_some_iff {least : ℕ} {run : List (Sample Float)} {month : ℤ × ℕ} {ic : Float} :
    ofRun? least run = some (month, ic) ↔ (∃ first ∈ run.head?, first.month = month) ∧
      least ≤ run.length ∧ spearman? (run.map (·.factor)) (run.map (·.forward)) = some ic := by
  cases run with
  | nil => simp [ofRun?]
  | cons first rest =>
    simp only [ofRun?, List.head?_cons, Option.mem_some_iff, exists_eq_left']
    split
    · rename_i hfew
      exact iff_of_false nofun fun h => absurd h.2.1 (not_le.mpr hfew)
    · rename_i henough
      rw [Option.map_eq_some_iff]
      constructor
      · rintro ⟨r, hr, heq⟩
        obtain ⟨rfl, rfl⟩ := Prod.mk.inj heq
        exact ⟨rfl, not_lt.mp henough, hr⟩
      · rintro ⟨rfl, -, hr⟩
        exact ⟨ic, hr, rfl⟩

/-- The months of the samples do not decrease when the times increase. -/
theorem pairwise_samples {times : List Timestamp} (htimes : times.Pairwise (· < ·))
    (factor returns : List Float) : (samples times factor returns).Pairwise fun a b =>
      toLex a.month ≤ toLex b.month := by
  rw [List.pairwise_iff_getElem]
  intro i j hi hj hlt
  obtain ⟨s, hs, ht, -⟩ := getElem?_samples hi
  obtain ⟨u, hu, ht', -⟩ := getElem?_samples hj
  rw [List.getElem?_eq_getElem hi, Option.some.injEq] at hs
  rw [List.getElem?_eq_getElem hj, Option.some.injEq] at hu
  obtain ⟨hi', hs'⟩ := List.getElem?_eq_some_iff.mp ht
  obtain ⟨hj', hu'⟩ := List.getElem?_eq_some_iff.mp ht'
  rw [hs, hu]
  show toLex s.timestamp.month ≤ toLex u.timestamp.month
  rw [← hs', ← hu']
  exact Timestamp.month_le (List.pairwise_iff_getElem.mp htimes i j hi' hj' hlt)

theorem month_beq_iff (a b : Sample Float) :
    (a.month == b.month) = true ↔ toLex a.month = toLex b.month := beq_iff_eq

/-- The run of a month is its group. -/
theorem mem_runs_iff {times : List Timestamp} (htimes : times.Pairwise (· < ·))
    {factor returns : List Float} {run : List (Sample Float)} {month : ℤ × ℕ} :
    (run ∈ (samples times factor returns).splitBy (fun a b => a.month == b.month) ∧
      ∃ first ∈ run.head?, first.month = month) ↔
    run ≠ [] ∧ run = group times factor returns month := by
  -- times increase, so months do not come back and a run is a whole group
  rw [mem_splitBy_iff month_beq_iff (pairwise_samples htimes factor returns)]
  have hgroup : ∀ m : ℤ × ℕ, (samples times factor returns).filter
      (fun s => toLex s.month = toLex m) = group times factor returns m :=
    fun m => List.filter_congr fun s _ => decide_eq_decide.mpr toLex_inj
  constructor
  · rintro ⟨⟨hne, m, hm⟩, first, hfirst, rfl⟩
    have hkey := List.mem_of_mem_head? hfirst
    rw [hm, List.mem_filter, decide_eq_true_eq] at hkey
    rw [← hkey.2, hgroup] at hm
    exact ⟨hne, hm⟩
  · rintro ⟨hne, hrun⟩
    refine ⟨⟨hne, toLex month, hrun.trans (hgroup month).symm⟩, run.head hne,
      List.head_mem_head? hne, ?_⟩
    have hfirst : run.head hne ∈ group times factor returns month := hrun ▸ List.head_mem hne
    exact of_decide_eq_true (List.mem_filter.mp hfirst).2

/-! ## Months in writing -/

section Text

open Decimal Timestamp Grammar

/-- Two numbers can be read again from their digits with a dash between them. -/
theorem padded_dash_inj {w w' v v' n n' i i' : ℕ}
    (h : (padded w n).toList ++ '-' :: (padded v i).toList =
      (padded w' n').toList ++ '-' :: (padded v' i').toList) : n = n' ∧ i = i' := by
  have hnumber := fun w n => (showsNumber_padded w n).1
  obtain ⟨hfirst, hsecond⟩ := append_inj_of_stopsAt (p := Char.isDigit) (hnumber w n).digit
    (hnumber w' n').digit (stopsAt_cons (by decide)) (stopsAt_cons (by decide)) h
  have hsecond : (padded v i).toList = (padded v' i').toList := (List.cons.inj hsecond).2
  constructor
  · rw [← (hnumber w n).value, hfirst, (hnumber w' n').value]
  · rw [← (hnumber v i).value, hsecond, (hnumber v' i').value]

/-- Digits do not start with a minus. -/
theorem minus_ne_padded {w n : ℕ} {s t : List Char} : '-' :: s ≠ (padded w n).toList ++ t := by
  intro h
  obtain ⟨hshows, hpos⟩ := showsNumber_padded w n
  cases hdigits : (padded w n).toList with
  | nil =>
    rw [hdigits] at hpos
    cases hpos
  | cons c rest =>
    rw [hdigits, List.cons_append] at h
    have hdigit := hshows.digit c (by rw [hdigits]; exact List.mem_cons_self)
    rw [← (List.cons.inj h).1] at hdigit
    cases hdigit

theorem toList_monthText (month : ℤ × ℕ) : (monthText month).toList =
    if month.1 < 0 then '-' :: ((padded 3 month.1.natAbs).toList ++ '-' :: (padded 2 month.2).toList)
    else (padded 4 month.1.natAbs).toList ++ '-' :: (padded 2 month.2).toList := by
  rw [monthText, String.toList_append, String.toList_append]
  split
  · rw [String.toList_append, List.append_assoc, List.append_assoc]
    rfl
  · rw [List.append_assoc]
    rfl

/-- **Different months are written differently.** -/
theorem monthText_inj {a b : ℤ × ℕ} (h : monthText a = monthText b) : a = b := by
  have htext := congrArg String.toList h
  rw [toList_monthText, toList_monthText] at htext
  split at htext
  · split at htext
    · obtain ⟨hyear, hmonth⟩ := padded_dash_inj (List.cons.inj htext).2
      exact Prod.ext (by omega) hmonth
    · exact absurd htext minus_ne_padded
  · split at htext
    · exact absurd htext.symm minus_ne_padded
    · obtain ⟨hyear, hmonth⟩ := padded_dash_inj htext
      exact Prod.ext (by omega) hmonth

end Text

/-! ## The groups -/

/-- What the monthly coefficients are of, in lists of any lengths. -/
structure ByMonth (times : List Timestamp) (factor returns : List Float) (least : ℕ) : Prop where
  /-- The months increase, so none comes up twice. -/
  increasing : (monthly times factor returns least).Pairwise fun a b => toLex a.1 < toLex b.1
  /-- A month has a coefficient if it has a position, if these are enough, and if the values at them
  correlate. The coefficient is their rank correlation. -/
  mem_iff : ∀ month ic, (month, ic) ∈ monthly times factor returns least ↔
    positions times factor returns month ≠ [] ∧
      least ≤ (positions times factor returns month).length ∧
      spearman? (picked factor (positions times factor returns month))
        (picked returns (positions times factor returns month)) = some ic
  /-- They are told apart in a report, where months are texts. -/
  labels : ((Analysis.months times factor returns least).map (·.period)).Nodup

/-- **Monthly coefficients are those of the calendar months**, when the times increase. Each month
with enough positions whose values correlate is there once, with the rank correlation of just these
values, and the months are in order.

The positions are cut into runs wherever the month changes. Since times increase, a month does not
come back after another one, and so a run has all positions of its month. -/
theorem byMonth {times : List Timestamp} (htimes : times.Pairwise (· < ·))
    (factor returns : List Float) (least : ℕ) : ByMonth times factor returns least := by
  have hsamples := pairwise_samples htimes factor returns
  have hincreasing : (monthly times factor returns least).Pairwise
      fun a b => toLex a.1 < toLex b.1 := by
    rw [monthly_eq]
    refine (pairwise_splitBy month_beq_iff hsamples).filterMap _ fun s t hst x hx y hy => ?_
    obtain ⟨⟨a, ha, hmonth⟩, -⟩ := ofRun?_eq_some_iff.mp hx
    obtain ⟨⟨b, hb, hmonth'⟩, -⟩ := ofRun?_eq_some_iff.mp hy
    rw [← hmonth, ← hmonth']
    exact hst a (List.mem_of_mem_head? ha) b (List.mem_of_mem_head? hb)
  refine ⟨hincreasing, fun month ic => ?_, ?_⟩
  · rw [← map_factor_group, ← map_forward_group, ← length_group, monthly_eq, List.mem_filterMap,
      ← List.length_pos_iff, ← length_group, List.length_pos_iff]
    constructor
    · rintro ⟨run, hrun, hof⟩
      obtain ⟨hfirst, henough, hic⟩ := ofRun?_eq_some_iff.mp hof
      obtain ⟨hne, rfl⟩ := (mem_runs_iff htimes).mp ⟨hrun, hfirst⟩
      exact ⟨hne, henough, hic⟩
    · rintro ⟨hne, henough, hic⟩
      obtain ⟨hrun, hfirst⟩ := (mem_runs_iff htimes).mpr ⟨hne, rfl⟩
      exact ⟨_, hrun, ofRun?_eq_some_iff.mpr ⟨hfirst, henough, hic⟩⟩
  · -- different months have different names
    rw [Analysis.months, List.map_map, List.nodup_iff_pairwise_ne, List.pairwise_map]
    refine hincreasing.imp fun hlt heq => ?_
    rw [monthText_inj heq] at hlt
    exact lt_irrefl _ hlt

/-- Two days of October and two of December. -/
def overNovember : List Timestamp :=
  [.midnight ⟨2016, 10, 30, by decide, by decide, by decide⟩,
    .midnight ⟨2016, 10, 31, by decide, by decide, by decide⟩,
    .midnight ⟨2016, 12, 1, by decide, by decide, by decide⟩,
    .midnight ⟨2016, 12, 2, by decide, by decide, by decide⟩]

/-- A factor that is right in October and wrong in December. -/
theorem byMonth_overNovember : overNovember.Pairwise (· < ·) ∧
    ByMonth overNovember [1, 2, 3, 4] [1, 2, 4, 3] 2 ∧
    positions overNovember [1, 2, 3, 4] [1, 2, 4, 3] (2016, 12) = [2, 3] := by
  have hincreasing : overNovember.Pairwise (· < ·) := by decide
  exact ⟨hincreasing, byMonth hincreasing _ _ _, by decide +kernel⟩

end Ic

end FactorStudy
