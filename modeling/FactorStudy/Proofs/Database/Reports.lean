import FactorStudy.Database.Reports
import FactorStudy.Proofs.Database.Table
import FactorStudy.Proofs.Report.ReadBack
import FactorStudy.Proofs.Report.Shelf
import FactorStudy.Proofs.Time.ReportText

/-!
# The table of reports is a finite map

A table of reports holds one row for each report that is kept (`HoldsReports`), in whatever order.
The row has the report twice: whole, as a text that is read back, and in columns, from which a
summary is made. The columns lose nothing but the signs of zeros, as long as the time of the report
is one that can be read back. So every call is answered as from a map, and none is refused.
-/

namespace FactorStudy

/-- A summary as columns hold it: no zero has a sign. -/
def ReportSummary.unsigned (s : ReportSummary) : ReportSummary :=
  { s with
    score := keptNumber s.score
    icMean := keptNumber s.icMean
    sharpe := keptNumber s.sharpe
    sortino := keptNumber s.sortino
    winRate := keptNumber s.winRate }

/-- The report can be kept in a row. -/
structure Report.IsTabular (r : Report) : Prop where
  storable : r.IsStorable
  plain : r.timestamp.HasPlainYear

/-! ## Rows -/

namespace ReportRow

/-- The row of a report whose figures are defined. -/
def of (r : Report) : ReportRow where
  id := r.id
  name := r.name
  description := r.description
  expression := r.expression
  timestamp := r.timestamp.zonedText
  score := keptNumber r.data.metrics.score
  icMean := keptNumber r.data.metrics.icMean
  sharpe := keptNumber r.data.metrics.sharpe
  sortino := keptNumber r.data.metrics.sortino
  winRate := keptNumber r.data.metrics.winRate
  isValidFactor := r.data.metrics.isValidFactor
  payload := r.toJson.compact

/-- The figures of a report are among its numbers. -/
theorem isNaN_of_mem_named {r : Report} (h : r.IsStorable) {p : String × Float}
    (hp : p ∈ r.data.metrics.named) : p.2.isNaN = false := by
  refine Double.isNaN_of_isFinite (h.finite _ ?_)
  have hmetrics : ∀ b : BacktestResult, p ∈ b.metrics.named → p.2 ∈ b.allNumbers := by
    intro b hp
    have hnumber : p.2 ∈ b.metrics.numbers := List.mem_cons_of_mem _ (List.mem_map_of_mem hp)
    simp only [BacktestResult.allNumbers, BacktestResult.numbers, List.mem_append]
    tauto
  cases hdata : r.data with
  | single b =>
    rw [hdata] at hp
    exact hmetrics b hp
  | combination c =>
    rw [hdata] at hp
    exact List.mem_append_left _ (hmetrics c.result hp)

theorem ofReport_eq_ok {r : Report} (h : r.IsStorable) : ofReport r = .ok (of r) := by
  have hcolumn : ∀ p ∈ r.data.metrics.named, Database.column Database.reportTable p.1 p.2 =
      .ok (keptNumber p.2) := fun p hp =>
    Database.column_eq_ok Database.reportTable p.1 (isNaN_of_mem_named h hp)
  -- five of the twenty figures have a column
  simp only [Metrics.named, List.forall_mem_cons] at hcolumn
  obtain ⟨hicMean, -, -, -, -, -, hsharpe, hsortino, -, hwinRate, -, -, -, -, -, -, -, -, -, hscore,
    -⟩ := hcolumn
  simp only [ofReport, hscore, hicMean, hsharpe, hsortino, hwinRate]
  rfl

/-- The columns of a row give the summary of the report. -/
theorem summary_of {r : Report} (h : r.timestamp.HasPlainYear) :
    (of r).summary = .ok r.summary.unsigned := by
  rw [summary, show (of r).timestamp = r.timestamp.zonedText from rfl,
    Timestamp.internetFormat_zonedText h]
  rfl

/-- Reports stand in the rows with their ids. -/
def shelving : Shelving ReportRow where
  entry := of
  key := (·.id)
  name id := id
  key_entry _ := rfl
  name_inj h := h

theorem mapM_summary {rs : List Report} (h : ∀ r ∈ rs, r.timestamp.HasPlainYear) :
    (rs.map shelving.entry).mapM summary = .ok (rs.map fun r => r.summary.unsigned) := by
  induction rs with
  | nil => rfl
  | cons r rs ih =>
    obtain ⟨hr, hrs⟩ := List.forall_mem_cons.mp h
    have hsummary : (shelving.entry r).summary = .ok r.summary.unsigned := summary_of hr
    rw [List.map_cons, List.mapM_cons, hsummary, ih hrs]
    rfl

end ReportRow

namespace Database

theorem nodup_replace {id : String} {row : ReportRow} {rows : List ReportRow}
    (h : (rows.map (·.id)).Nodup) (hrow : row.id = id) :
    ((replace (fun other => other.id == id) row rows).map (·.id)).Nodup := by
  rw [replace, List.map_append, List.map_singleton, hrow, List.nodup_append]
  refine ⟨(List.filter_sublist.map _).nodup h, List.nodup_singleton _, fun key hkey key' hkey' => ?_⟩
  obtain ⟨other, hother, rfl⟩ := List.mem_map.mp hkey
  rw [List.mem_singleton.mp hkey']
  simpa using (List.mem_filter.mp hother).2

/-! ## Calls -/

/-- The answer to a call, and the database afterwards: a statement that fails changes nothing. -/
def answer (db : Database) : StoreCall → StoreAnswer × Database
  | .save r =>
    match db.saveReport r with
    | .ok after => (.saved (.ok r.id), after)
    | .error fault => (.saved (.error fault), db)
  | .get id => (.got (db.getReport id), db)
  | .delete id =>
    match db.deleteReport id with
    | .ok after => (.deleted (.ok ()), after)
    | .error fault => (.deleted (.error fault), db)
  | .list key => (.listed (db.listReports key), db)

/-- The databases differ in the order of the reports only. -/
structure Rearranges (db db' : Database) : Prop where
  bars : db.bars = db'.bars
  reports : Option.Rel List.Perm db.reports db'.reports

theorem Rearranges.refl (db : Database) : Rearranges db db where
  bars := rfl
  reports := by
    cases db.reports with
    | none => exact .none
    | some rows => exact .some (.refl rows)

/-- A call to a database whose reports may come in any order. -/
def Step (db : Database) (c : StoreCall) (a : StoreAnswer) (after : Database) : Prop :=
  ∃ db', Rearranges db db' ∧ answer db' c = (a, after)

/-- There is one row for each report that is kept, and no other. -/
def HoldsReports (db : Database) (m : Shelf) : Prop :=
  ∃ rows, db.reports = some rows ∧ ReportRow.shelving.Holds Report.IsTabular rows m

theorem holdsReports_empty : empty.initialized.HoldsReports ∅ := ⟨[], rfl, Shelving.holds_nil⟩

section HoldsReports

variable {db db' : Database} {m : Shelf}

theorem HoldsReports.rearrange (h : db.HoldsReports m) (hdb : Rearranges db db') :
    db'.HoldsReports m := by
  obtain ⟨rows, hrows, hholds⟩ := h
  have hperm := hdb.reports
  rw [hrows] at hperm
  cases hreports : db'.reports with
  | none =>
    rw [hreports] at hperm
    cases hperm
  | some rows' =>
    rw [hreports] at hperm
    cases hperm with
    | some hperm => exact ⟨rows', hreports, hholds.perm hperm⟩

theorem holds_saveReport (h : db.HoldsReports m) {r : Report} (hr : r.IsTabular) :
    ∃ after, db.saveReport r = .ok after ∧ after.HoldsReports (m.insert r.id r) := by
  obtain ⟨rows, hrows, hholds⟩ := h
  have hmem : ∀ row, row ∈ replace (fun other => other.id == r.id) (.of r) rows ↔
      row = .of r ∨ row ∈ rows ∧ row.id ≠ r.id := by
    intro row
    rw [replace, List.mem_append, List.mem_filter, List.mem_singleton, Bool.not_eq_true',
      beq_eq_false_iff_ne]
    exact or_comm
  refine ⟨{ db with reports := some (replace (fun other => other.id == r.id) (.of r) rows) }, ?_,
    _, rfl, hholds.save hr (nodup_replace hholds.nodup rfl) hmem⟩
  rw [saveReport, hrows, ReportRow.ofReport_eq_ok hr.storable]
  rfl

/-- The row that is found by an id is that of the report under the id. -/
theorem find?_eq {rows : List ReportRow} (h : ReportRow.shelving.Holds Report.IsTabular rows m)
    (id : String) : rows.find? (fun row => row.id == id) = (m.lookup id).map .of := by
  cases hid : m.lookup id with
  | none =>
    refine List.find?_eq_none.mpr fun row hrow => ?_
    rw [beq_iff_eq]
    exact h.key_ne hid hrow
  | some r =>
    cases hfind : rows.find? fun row => row.id == id with
    | none =>
      have hne := List.find?_eq_none.mp hfind _ (h.mem hid)
      exact absurd (beq_iff_eq.mpr (h.kept hid).1.symm) hne
    | some row =>
      -- whichever row is found, no other report has the id
      have hkey := List.find?_some hfind
      rw [beq_iff_eq] at hkey
      exact congrArg some (h.eq_entry hid (List.mem_of_find?_eq_some hfind) hkey)

theorem getReport_eq (h : db.HoldsReports m) (id : String) :
    db.getReport id = (m.lookup id).elim (.error (.reportNotFound id)) .ok := by
  obtain ⟨rows, hrows, hholds⟩ := h
  unfold getReport
  simp only [hrows, Database.rows, bind, Except.bind, find?_eq hholds]
  cases hid : m.lookup id with
  | none => rfl
  | some r =>
    have hread : Report.read (ReportRow.of r).payload = .ok r :=
      Report.read_compact (hholds.kept hid).2.storable
    simp only [Option.map_some, hread, Option.elim_some]

theorem holds_deleteReport (h : db.HoldsReports m) (id : String) :
    ∃ after, answer db (.delete id) =
        (.deleted ((m.lookup id).elim (.error (.reportNotFound id)) fun _ => .ok ()), after) ∧
      after.HoldsReports (m.erase id) := by
  obtain ⟨rows, hrows, hholds⟩ := h
  -- the row of an id is there exactly if the map has the id
  have hany : (rows.any fun row => row.id == id) = (m.lookup id).isSome := by
    rw [← List.isSome_find?, find?_eq hholds, Option.isSome_map]
  have hdelete : db.deleteReport id = if rows.any fun row => row.id == id then
      .ok { db with reports := some (rows.filter fun row => !(row.id == id)) }
      else .error (.reportNotFound id) := by
    unfold deleteReport
    rw [hrows]
    rfl
  rw [hany] at hdelete
  cases hid : m.lookup id with
  | none =>
    rw [hid] at hdelete
    refine ⟨db, ?_, rows, hrows, hholds.delete_none hid⟩
    rw [answer, hdelete]
    rfl
  | some r =>
    rw [hid] at hdelete
    -- every other row stays
    have hmem : ∀ row, row ∈ rows.filter (fun row => !(row.id == id)) ↔
        row ∈ rows ∧ row.id ≠ id := by
      intro row
      rw [List.mem_filter, Bool.not_eq_true', beq_eq_false_iff_ne]
    refine ⟨{ db with reports := some (rows.filter fun row => !(row.id == id)) }, ?_, _, rfl,
      hholds.delete ((List.filter_sublist.map _).nodup hholds.nodup) hmem⟩
    rw [answer, hdelete]
    rfl

theorem listReports_eq (h : db.HoldsReports m) (key : SortKey) :
    ∃ ss, m.Lists ReportSummary.unsigned ss ∧ db.listReports key = .ok (rankSummaries ss key) := by
  obtain ⟨rows, hrows, hholds⟩ := h
  -- newest first is one more order of the rows
  let newest := rows.mergeSort fun a b => decide (b.timestamp ≤ a.timestamp)
  have hnewest : ReportRow.shelving.Holds Report.IsTabular newest m :=
    hholds.perm (List.mergeSort_perm rows _).symm
  obtain ⟨rs, hrs, hids, hkept⟩ := hnewest.exists_reports
  have hsummaries : newest.mapM ReportRow.summary =
      .ok (rs.map fun r => r.summary.unsigned) := by
    have hplain : ∀ r ∈ rs, r.timestamp.HasPlainYear := fun r hr =>
      (hholds.kept ((hkept r).mp hr)).2.plain
    rw [hrs]
    exact ReportRow.mapM_summary hplain
  have hunsigned : ∀ s : ReportSummary, s.unsigned.id = s.id := fun _ => rfl
  refine ⟨rs.map fun r => r.summary.unsigned, Shelf.lists_map hunsigned hids hkept, ?_⟩
  unfold listReports
  rw [hrows]
  show (newest.mapM ReportRow.summary).bind (fun ss => .ok (rankSummaries ss key)) = _
  rw [hsummaries]
  rfl

end HoldsReports

/-! ## Steps and runs -/

/-- Every call is answered as from the map. -/
theorem step_refines {db after : Database} {m : Shelf} {c : StoreCall} {a : StoreAnswer}
    (h : db.HoldsReports m) (hc : c.Saves Report.IsTabular) (hstep : Step db c a after) :
    ∃ m', Shelf.Step (fun _ => none) ReportSummary.unsigned m c a m' ∧ after.HoldsReports m' := by
  obtain ⟨db', hdb, hanswer⟩ := hstep
  -- rows may have moved in between, which no answer shows
  replace h := h.rearrange hdb
  refine ⟨m.after c, ?_⟩
  cases c with
  | save r =>
    obtain ⟨after', hsave, hholds⟩ := holds_saveReport h hc
    rw [answer, hsave, Prod.mk.injEq] at hanswer
    obtain ⟨rfl, rfl⟩ := hanswer
    exact ⟨.answered rfl rfl, hholds⟩
  | get id =>
    rw [answer, getReport_eq h id, Prod.mk.injEq] at hanswer
    obtain ⟨rfl, rfl⟩ := hanswer
    exact ⟨.answered rfl rfl, h⟩
  | delete id =>
    obtain ⟨after', hdelete, hholds⟩ := holds_deleteReport h id
    rw [hdelete, Prod.mk.injEq] at hanswer
    obtain ⟨rfl, rfl⟩ := hanswer
    exact ⟨.answered rfl rfl, hholds⟩
  | list key =>
    obtain ⟨ss, hss, hlist⟩ := listReports_eq h key
    rw [answer, hlist, Prod.mk.injEq] at hanswer
    obtain ⟨rfl, rfl⟩ := hanswer
    exact ⟨.answered rfl ⟨ss, hss, rfl⟩, h⟩

theorem run_refines {db : Database} {log : List (StoreCall × StoreAnswer)}
    (hrun : Run Step empty.initialized log db) (hlog : ∀ x ∈ log, x.1.Saves Report.IsTabular) :
    ∃ m, Run (Shelf.Step (fun _ => none) ReportSummary.unsigned) ∅ log m ∧ db.HoldsReports m := by
  have hstep : ∀ db m c a after, HoldsReports db m → StoreCall.Saves Report.IsTabular c →
      Step db c a after → ∃ m', Shelf.Step (fun _ => none) ReportSummary.unsigned m c a m' ∧
        after.HoldsReports m' :=
    fun _ _ _ _ _ h hc hs => step_refines h hc hs
  exact hrun.refines hstep holdsReports_empty hlog

theorem exists_run (db : Database) (calls : List StoreCall) :
    ∃ log after, Run Step db log after ∧ log.map (·.1) = calls :=
  Run.exists_of_total
    (fun db c => ⟨(answer db c).1, (answer db c).2, db, .refl db, rfl⟩) db calls

end Database

end FactorStudy
