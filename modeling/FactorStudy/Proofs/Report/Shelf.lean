import FactorStudy.Error
import FactorStudy.Report.Ranking
import Mathlib.Data.Finmap

/-!
# What a store of reports is

A store of reports is a finite map from ids to reports. `Shelf.Step` says what such a map answers to
a call and what it is afterwards: a call that is refused fails and changes nothing; any other is
answered from the map. What is refused, and in which form the numbers of a summary are shown, is up
to the store.

A store is compared with the map over whole runs: if each step of the store is a step of the map,
for a relation between the two that is kept, then so is each run (`Run.refines`). Here the relation
is that there is one entry in the store for each report that is kept (`Shelving.Holds`), which a save
and a delete have to keep.
-/

namespace FactorStudy

/-- A call to a store of reports. -/
inductive StoreCall where
  | save (r : Report)
  | get (id : String)
  | delete (id : String)
  | list (key : SortKey)

inductive StoreAnswer where
  | saved (outcome : Outcome String)
  | got (outcome : Outcome Report)
  | deleted (outcome : Outcome Unit)
  | listed (outcome : Outcome (List ReportSummary))

/-- The answer to a call that fails. -/
def StoreCall.failure (e : Error) : StoreCall → StoreAnswer
  | save _ => .saved (.error e)
  | get _ => .got (.error e)
  | delete _ => .deleted (.error e)
  | list _ => .listed (.error e)

/-- A report that is saved has a property. -/
def StoreCall.Saves (P : Report → Prop) : StoreCall → Prop
  | save r => P r
  | get _ | delete _ | list _ => True

/-! ## Runs -/

section Run

variable {σ τ : Type}

/-- Calls that are made one after the other, with their answers. -/
inductive Run (step : σ → StoreCall → StoreAnswer → σ → Prop) :
    σ → List (StoreCall × StoreAnswer) → σ → Prop where
  | nil (s : σ) : Run step s [] s
  | cons {s s' s'' : σ} {c : StoreCall} {a : StoreAnswer} {log : List (StoreCall × StoreAnswer)} :
      step s c a s' → Run step s' log s'' → Run step s ((c, a) :: log) s''

/-- A relation that every step keeps is kept by a run. -/
theorem Run.refines {step : σ → StoreCall → StoreAnswer → σ → Prop}
    {step' : τ → StoreCall → StoreAnswer → τ → Prop} {R : σ → τ → Prop} {P : StoreCall → Prop}
    (hstep : ∀ s t c a s', R s t → P c → step s c a s' → ∃ t', step' t c a t' ∧ R s' t')
    {s s' : σ} {log : List (StoreCall × StoreAnswer)} (h : Run step s log s') {t : τ} (hR : R s t)
    (hP : ∀ x ∈ log, P x.1) : ∃ t', Run step' t log t' ∧ R s' t' := by
  induction h generalizing t with
  | nil s => exact ⟨t, .nil t, hR⟩
  | cons hs _ ih =>
    obtain ⟨hfirst, hrest⟩ := List.forall_mem_cons.mp hP
    obtain ⟨t', ht', hR'⟩ := hstep _ _ _ _ _ hR hfirst hs
    obtain ⟨t'', hrun, hR''⟩ := ih hR' hrest
    exact ⟨t'', .cons ht' hrun, hR''⟩

/-- Calls that are each answered can be made in a row. -/
theorem Run.exists_of_total {step : σ → StoreCall → StoreAnswer → σ → Prop}
    (htotal : ∀ s c, ∃ a s', step s c a s') (s : σ) (calls : List StoreCall) :
    ∃ log s', Run step s log s' ∧ log.map (·.1) = calls := by
  induction calls generalizing s with
  | nil => exact ⟨[], s, .nil s, rfl⟩
  | cons c calls ih =>
    obtain ⟨a, s', hs⟩ := htotal s c
    obtain ⟨log, s'', hrun, hcalls⟩ := ih s'
    exact ⟨(c, a) :: log, s'', .cons hs hrun, by rw [List.map_cons, hcalls]⟩

end Run

/-! ## The map -/

/-- The report that is kept under each id. -/
abbrev Shelf := Finmap fun _ : String => Report

namespace Shelf

/-- There is one summary for each report that is kept, as the store shows it. -/
structure Lists (shown : ReportSummary → ReportSummary) (m : Shelf) (ss : List ReportSummary) :
    Prop where
  nodup : (ss.map (·.id)).Nodup
  mem_iff : ∀ s, s ∈ ss ↔ ∃ r, m.lookup r.id = some r ∧ s = shown r.summary

/-- What is answered from the map. -/
def Answers (shown : ReportSummary → ReportSummary) (m : Shelf) : StoreCall → StoreAnswer → Prop
  | .save r, a => a = .saved (.ok r.id)
  | .get id, a => a = .got ((m.lookup id).elim (.error (.reportNotFound id)) .ok)
  | .delete id, a => a = .deleted ((m.lookup id).elim (.error (.reportNotFound id)) fun _ => .ok ())
  | .list key, a => ∃ ss, m.Lists shown ss ∧ a = .listed (.ok (rankSummaries ss key))

/-- The map after a call that is not refused. A report takes the place of the one with its id. -/
def after (m : Shelf) : StoreCall → Shelf
  | .save r => m.insert r.id r
  | .delete id => m.erase id
  | .get _ | .list _ => m

/-- One call to a map that refuses some calls. -/
inductive Step (refuses : StoreCall → Option Error) (shown : ReportSummary → ReportSummary) :
    Shelf → StoreCall → StoreAnswer → Shelf → Prop where
  | refused {m : Shelf} {c : StoreCall} {e : Error} :
      refuses c = some e → Step refuses shown m c (c.failure e) m
  | answered {m : Shelf} {c : StoreCall} {a : StoreAnswer} :
      refuses c = none → m.Answers shown c a → Step refuses shown m c a (m.after c)

/-- Two reports are not kept under one id. -/
theorem eq_of_lookup_eq_some {m : Shelf} {r r' : Report} (h : m.lookup r.id = some r)
    (h' : m.lookup r'.id = some r') (hid : r.id = r'.id) : r = r' := by
  rw [hid, h'] at h
  exact (Option.some.inj h).symm

theorem lookup_after_save (m : Shelf) (r : Report) (id : String) :
    (m.insert r.id r).lookup id = if id = r.id then some r else m.lookup id := by
  by_cases h : id = r.id
  · rw [if_pos h, h, Finmap.lookup_insert]
  · rw [if_neg h, Finmap.lookup_insert_of_ne _ h]

theorem lookup_after_delete (m : Shelf) (id id' : String) :
    (m.erase id).lookup id' = if id' = id then none else m.lookup id' := by
  by_cases h : id' = id
  · rw [if_pos h, h, Finmap.lookup_erase]
  · rw [if_neg h, Finmap.lookup_erase_ne h]

/-- A report is kept under its own id after a save if it was just saved, or had been kept and has
another id. -/
theorem keeps_after_save (m : Shelf) (r r' : Report) :
    (m.insert r.id r).lookup r'.id = some r' ↔ r' = r ∨ m.lookup r'.id = some r' ∧ r'.id ≠ r.id := by
  rw [lookup_after_save]
  by_cases h : r'.id = r.id
  · rw [if_pos h, Option.some.injEq]
    constructor
    · intro hr
      exact Or.inl hr.symm
    · rintro (hr | ⟨-, hne⟩)
      · exact hr.symm
      · exact absurd h hne
  · rw [if_neg h]
    constructor
    · intro hr
      exact Or.inr ⟨hr, h⟩
    · rintro (hr | ⟨hr, -⟩)
      · exact absurd (congrArg Report.id hr) h
      · exact hr

theorem keeps_after_delete (m : Shelf) (id : String) (r : Report) :
    (m.erase id).lookup r.id = some r ↔ m.lookup r.id = some r ∧ r.id ≠ id := by
  rw [lookup_after_delete]
  by_cases h : r.id = id
  · rw [if_pos h]
    exact iff_of_false (Option.some_ne_none r).symm fun hr => hr.2 h
  · rw [if_neg h]
    exact ⟨fun hr => ⟨hr, h⟩, (·.1)⟩

/-- The summaries of the reports that are kept. -/
theorem lists_map {shown : ReportSummary → ReportSummary} (hshown : ∀ s, (shown s).id = s.id)
    {m : Shelf} {rs : List Report} (hids : (rs.map (·.id)).Nodup)
    (hrs : ∀ r, r ∈ rs ↔ m.lookup r.id = some r) :
    m.Lists shown (rs.map fun r => shown r.summary) where
  nodup := by
    have hsame : (rs.map fun r => shown r.summary).map (·.id) = rs.map (·.id) := by
      rw [List.map_map]
      exact List.map_congr_left fun r _ => hshown r.summary
    rwa [hsame]
  mem_iff s := by
    rw [List.mem_map]
    constructor
    · rintro ⟨r, hr, rfl⟩
      exact ⟨r, (hrs r).mp hr, rfl⟩
    · rintro ⟨r, hr, rfl⟩
      exact ⟨r, (hrs r).mpr hr, rfl⟩

end Shelf

/-! ## The map in a list of entries -/

/-- How reports are kept in a list: the entry of a report, and the key by which the entry is found.
The key goes by the id. -/
structure Shelving (α : Type) where
  entry : Report → α
  key : α → String
  name : String → String
  key_entry : ∀ r, key (entry r) = name r.id
  name_inj : ∀ {id id'}, name id = name id' → id = id'

namespace Shelving

variable {α : Type} {S : Shelving α} {P : Report → Prop} {items items' : List α} {m : Shelf}
  {id : String} {r r' : Report}

theorem key_entry_ne_iff : S.key (S.entry r') ≠ S.name id ↔ r'.id ≠ id := by
  rw [S.key_entry]
  exact not_congr ⟨S.name_inj, congrArg S.name⟩

/-- There is one entry for each report that is kept, and no other, and the reports have a
property. -/
structure Holds (S : Shelving α) (P : Report → Prop) (items : List α) (m : Shelf) : Prop where
  nodup : (items.map S.key).Nodup
  mem_iff : ∀ x, x ∈ items ↔ ∃ r, m.lookup r.id = some r ∧ x = S.entry r
  kept : ∀ {id r}, m.lookup id = some r → id = r.id ∧ P r

theorem holds_nil : S.Holds P [] ∅ where
  nodup := List.nodup_nil
  mem_iff x := by
    refine iff_of_false List.not_mem_nil ?_
    rintro ⟨r, hr, -⟩
    rw [Finmap.lookup_empty] at hr
    cases hr
  kept h := by
    rw [Finmap.lookup_empty] at h
    cases h

namespace Holds

/-- The order of the entries does not matter. -/
theorem perm (h : S.Holds P items m) (hperm : items.Perm items') : S.Holds P items' m where
  nodup := (hperm.map _).nodup h.nodup
  mem_iff x := hperm.mem_iff.symm.trans (h.mem_iff x)
  kept := h.kept

theorem mem (h : S.Holds P items m) (hr : m.lookup id = some r) : S.entry r ∈ items := by
  obtain ⟨rfl, -⟩ := h.kept hr
  exact (h.mem_iff _).mpr ⟨r, hr, rfl⟩

theorem key_ne (h : S.Holds P items m) (hid : m.lookup id = none) {x : α} (hx : x ∈ items) :
    S.key x ≠ S.name id := by
  obtain ⟨r, hr, rfl⟩ := (h.mem_iff x).mp hx
  rw [key_entry_ne_iff]
  rintro rfl
  rw [hid] at hr
  cases hr

/-- The entry with the key of an id is that of the report under the id. -/
theorem eq_entry (h : S.Holds P items m) (hr : m.lookup id = some r) {x : α} (hx : x ∈ items)
    (hkey : S.key x = S.name id) : x = S.entry r := by
  obtain ⟨r', hr', rfl⟩ := (h.mem_iff x).mp hx
  rw [S.key_entry] at hkey
  rw [S.name_inj hkey, hr] at hr'
  rw [Option.some.inj hr']

/-- After a save there is the new entry in the place of any with its key. -/
theorem save (h : S.Holds P items m) (hr : P r) (hnodup : (items'.map S.key).Nodup)
    (hmem : ∀ x, x ∈ items' ↔ x = S.entry r ∨ x ∈ items ∧ S.key x ≠ S.name r.id) :
    S.Holds P items' (m.insert r.id r) where
  nodup := hnodup
  mem_iff x := by
    rw [hmem, h.mem_iff]
    -- the map has the same reports, with the new one in the place of the old
    constructor
    · rintro (hx | ⟨⟨r', hr', rfl⟩, hkey⟩)
      · exact ⟨r, (Shelf.keeps_after_save m r r).mpr (Or.inl rfl), hx⟩
      · have hne : r'.id ≠ r.id := key_entry_ne_iff.mp hkey
        exact ⟨r', (Shelf.keeps_after_save m r r').mpr (Or.inr ⟨hr', hne⟩), rfl⟩
    · rintro ⟨r', hr', rfl⟩
      rcases (Shelf.keeps_after_save m r r').mp hr' with rfl | ⟨hr', hne⟩
      · exact Or.inl rfl
      · exact Or.inr ⟨⟨r', hr', rfl⟩, key_entry_ne_iff.mpr hne⟩
  kept := by
    intro id r' hkeep
    rw [Shelf.lookup_after_save] at hkeep
    by_cases heq : id = r.id
    · rw [if_pos heq, Option.some.injEq] at hkeep
      rw [← hkeep]
      exact ⟨heq, hr⟩
    · rw [if_neg heq] at hkeep
      exact h.kept hkeep

/-- After a delete there is no entry with the key. -/
theorem delete (h : S.Holds P items m) (hnodup : (items'.map S.key).Nodup)
    (hmem : ∀ x, x ∈ items' ↔ x ∈ items ∧ S.key x ≠ S.name id) :
    S.Holds P items' (m.erase id) where
  nodup := hnodup
  mem_iff x := by
    rw [hmem, h.mem_iff]
    constructor
    · rintro ⟨⟨r, hr, rfl⟩, hkey⟩
      have hne : r.id ≠ id := key_entry_ne_iff.mp hkey
      exact ⟨r, (Shelf.keeps_after_delete m id r).mpr ⟨hr, hne⟩, rfl⟩
    · rintro ⟨r, hr, rfl⟩
      obtain ⟨hr, hne⟩ := (Shelf.keeps_after_delete m id r).mp hr
      exact ⟨⟨r, hr, rfl⟩, key_entry_ne_iff.mpr hne⟩
  kept := by
    intro id' r hkeep
    rw [Shelf.lookup_after_delete] at hkeep
    -- only the deleted id is missing now
    by_cases heq : id' = id
    · rw [if_pos heq] at hkeep
      cases hkeep
    · rw [if_neg heq] at hkeep
      exact h.kept hkeep

/-- A delete of what is not kept leaves everything. -/
theorem delete_none (h : S.Holds P items m) (hid : m.lookup id = none) :
    S.Holds P items (m.erase id) :=
  h.delete h.nodup fun _ => ⟨fun hx => ⟨hx, h.key_ne hid hx⟩, (·.1)⟩

/-- The entries, report by report. -/
theorem exists_reports (h : S.Holds P items m) : ∃ rs : List Report, items = rs.map S.entry ∧
    (rs.map (·.id)).Nodup ∧ ∀ r, r ∈ rs ↔ m.lookup r.id = some r := by
  have hitems : ∃ rs : List Report, items = rs.map S.entry ∧ ∀ r ∈ rs, m.lookup r.id = some r := by
    -- by induction on the list, for which only this much is needed of the store
    have hentries := fun x hx => (h.mem_iff x).mp hx
    clear h
    induction items with
    | nil => exact ⟨[], rfl, List.forall_mem_nil _⟩
    | cons x items ih =>
      obtain ⟨⟨r, hr, rfl⟩, hrest⟩ := List.forall_mem_cons.mp hentries
      obtain ⟨rs, rfl, hrs⟩ := ih hrest
      exact ⟨r :: rs, rfl, List.forall_mem_cons.mpr ⟨hr, hrs⟩⟩
  obtain ⟨rs, rfl, hrs⟩ := hitems
  refine ⟨rs, rfl, ?_, fun r => ⟨hrs r, fun hr => ?_⟩⟩
  · have hkeys : (rs.map S.entry).map S.key = (rs.map (·.id)).map S.name := by
      rw [List.map_map, List.map_map]
      exact List.map_congr_left fun r _ => S.key_entry r
    have hnodup := h.nodup
    rw [hkeys] at hnodup
    exact hnodup.of_map
  · obtain ⟨r', hr', hentry⟩ := List.mem_map.mp (h.mem hr)
    have hkey := congrArg S.key hentry
    rw [S.key_entry, S.key_entry] at hkey
    rw [← Shelf.eq_of_lookup_eq_some (hrs r' hr') hr (S.name_inj hkey)]
    exact hr'

end Holds

end Shelving

end FactorStudy
