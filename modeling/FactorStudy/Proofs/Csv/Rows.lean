import FactorStudy.Csv.Reader
import Mathlib.Data.List.Induction
import Mathlib.Data.List.Perm.Basic

/-!
# The rows of a table

Of a text the reader keeps the fields of its records, and their places (`cells`). Between records
nothing is held over, so a text that is read from one such place to the next adds the same record
wherever it stands (`cells_append`), and rows of a table can be reordered as texts
(`SameRows.of_perm`). Every text in which quotes are closed is made of such rows (`exists_rows`).
-/

namespace FactorStudy.Csv

namespace Scanner

/-! ## What was read before -/

/-- The second scanner reads on as the first one does, after records with the fields `base` and
perhaps at another place. -/
structure Follows (base : List (List String)) (s s' : Scanner) : Prop where
  mode : s'.mode = s.mode
  field : s'.field = s.field
  fields : s'.fields = s.fields
  records : s'.records.map (·.fields) = s.records.map (·.fields) ++ base

namespace Follows

variable {base : List (List String)} {s s' : Scanner}

theorem keep (h : Follows base s s') (mode : Mode) (c : Char) :
    Follows base (s.keep mode c) (s'.keep mode c) :=
  ⟨rfl, congrArg (c :: ·) h.field, h.fields, h.records⟩

theorem fieldText (h : Follows base s s') : s'.fieldText = s.fieldText := by
  rw [Scanner.fieldText, Scanner.fieldText, h.field]

theorem endField (h : Follows base s s') : Follows base s.endField s'.endField := by
  refine ⟨rfl, rfl, ?_, h.records⟩
  rw [Scanner.endField, Scanner.endField, h.fieldText, h.fields]

theorem endRecord (h : Follows base s s') : Follows base s.endRecord s'.endRecord := by
  refine ⟨rfl, rfl, rfl, ?_⟩
  simp only [Scanner.endRecord, List.map_cons, h.fieldText, h.fields, h.records, List.cons_append]

theorem bare (h : Follows base s s') (c : Char) : Follows base (s.bare c) (s'.bare c) := by
  unfold Scanner.bare
  split
  · exact h.endField
  · split
    · exact h.endRecord
    · exact h.keep .plain c

theorem opening (h : Follows base s s') (c : Char) : Follows base (s.opening c) (s'.opening c) := by
  unfold Scanner.opening
  split
  · exact ⟨rfl, h.field, h.fields, h.records⟩
  · exact h.bare c

theorem trans {base' : List (List String)} {s'' : Scanner} (h : Follows base s s')
    (h' : Follows base' s' s'') : Follows (base ++ base') s s'' := by
  refine ⟨h'.mode.trans h.mode, h'.field.trans h.field, h'.fields.trans h.fields, ?_⟩
  rw [h'.records, h.records, List.append_assoc]

theorem step (h : Follows base s s') (c : Char) : Follows base (s.step c) (s'.step c) := by
  -- both scanners have the character behind them; their places need not agree
  have hhere : Follows base { s with here := s.here.after c } { s' with here := s'.here.after c } :=
    ⟨h.mode, h.field, h.fields, h.records⟩
  unfold Scanner.step
  simp only [h.mode]
  cases s.mode with
  | betweenRecords =>
    simp only
    split
    · exact ⟨rfl, h.field, h.fields, h.records⟩
    · exact hhere.opening c
  | fieldStart => exact hhere.opening c
  | plain => exact hhere.bare c
  | quoted =>
    simp only
    split
    · exact ⟨rfl, h.field, h.fields, h.records⟩
    · exact hhere.keep .quoted c
  | quoteSeen =>
    simp only
    split
    · exact hhere.keep .quoted c
    · exact hhere.bare c

theorem foldl (h : Follows base s s') (cs : List Char) :
    Follows base (cs.foldl Scanner.step s) (cs.foldl Scanner.step s') := by
  induction cs generalizing s s' with
  | nil => exact h
  | cons c cs ih => exact ih (h.step c)

theorem finish (h : Follows base s s') :
    s'.finish.map (·.fields) = base.reverse ++ s.finish.map (·.fields) := by
  unfold Scanner.finish
  rw [h.mode]
  split
  · rw [List.map_reverse, List.map_reverse, h.records, List.reverse_append]
  · rw [List.map_reverse, List.map_reverse, h.endRecord.records, List.reverse_append]

end Follows

/-- Between records nothing is held over. -/
def Settled (s : Scanner) : Prop := s.mode = .betweenRecords → s.field = [] ∧ s.fields = []

theorem settled_bare (s : Scanner) (c : Char) : (s.bare c).Settled := by
  unfold bare
  split
  · exact nofun
  · split
    · exact fun _ => ⟨rfl, rfl⟩
    · exact nofun

theorem settled_opening (s : Scanner) (c : Char) : (s.opening c).Settled := by
  unfold opening
  split
  · exact nofun
  · exact settled_bare s c

theorem Settled.step {s : Scanner} (h : s.Settled) (c : Char) : (s.step c).Settled := by
  unfold Scanner.step
  -- only `opening` and `bare` end records; inside quotes a line break is a character as any other
  cases hmode : s.mode with
  | betweenRecords =>
    simp only
    split
    · exact fun _ => h hmode
    · exact settled_opening _ c
  | fieldStart => exact settled_opening _ c
  | plain => exact settled_bare _ c
  | quoted =>
    simp only
    split
    · exact nofun
    · exact nofun
  | quoteSeen =>
    simp only
    split
    · exact nofun
    · exact settled_bare _ c

theorem Settled.foldl {s : Scanner} (h : s.Settled) (cs : List Char) :
    (cs.foldl Scanner.step s).Settled := by
  induction cs generalizing s with
  | nil => exact h
  | cons c cs ih => exact ih (h.step c)

end Scanner

/-! ## Rows -/

/-- The reader after a text. -/
def scan (cs : List Char) : Scanner := cs.foldl Scanner.step (.initial .first)

/-- The fields of the records of a text. -/
def cells (cs : List Char) : List (List String) := (scan cs).finish.map (·.fields)

/-- A text that is read as one record, up to the end of its line or beyond. -/
structure IsRow (cs : List Char) (fields : List String) : Prop where
  mode : (scan cs).mode = .betweenRecords
  records : (scan cs).records.map (·.fields) = [fields]

variable {cs : List Char} {fields : List String}

/-- A row leaves the reader as it was before, one record aside. -/
theorem IsRow.follows (h : IsRow cs fields) (rest : List Char) :
    Scanner.Follows [fields] (scan rest) (scan (cs ++ rest)) := by
  have hsettled : (scan cs).Settled := Scanner.Settled.foldl (fun _ => ⟨rfl, rfl⟩) cs
  obtain ⟨hfield, hfields⟩ := hsettled h.mode
  rw [scan, scan, List.foldl_append]
  exact Scanner.Follows.foldl ⟨h.mode, hfield, hfields, h.records⟩ rest

theorem follows_flatten {rows : List (List Char)} {records : List (List String)}
    (h : List.Forall₂ IsRow rows records) (rest : List Char) :
    Scanner.Follows records.reverse (scan rest) (scan (rows.flatten ++ rest)) := by
  induction h with
  | nil => exact ⟨rfl, rfl, rfl, (List.append_nil _).symm⟩
  | @cons row fields rows records hrow _ ih =>
    rw [List.reverse_cons, List.flatten_cons, List.append_assoc]
    exact ih.trans (hrow.follows _)

theorem cells_append {rows : List (List Char)} {records : List (List String)}
    (h : List.Forall₂ IsRow rows records) (rest : List Char) :
    cells (rows.flatten ++ rest) = records ++ cells rest := by
  have hcells := (follows_flatten h rest).finish
  rwa [List.reverse_reverse] at hcells

/-- Rows in another order are records in the same other order. -/
theorem exists_perm_cells {rows rows' : List (List Char)} {records : List (List String)}
    (h : List.Forall₂ IsRow rows records) (hperm : rows.Perm rows') :
    ∃ records', List.Forall₂ IsRow rows' records' ∧ records.Perm records' := by
  obtain ⟨records', hrows, hrecords⟩ := List.perm_comp_forall₂ hperm.symm h
  exact ⟨records', hrows, hrecords.symm⟩

/-! ## Texts made of rows -/

/-- A line end ends a record, if it is not inside quotes. -/
theorem step_lineEnd {s : Scanner} (h : s.mode ≠ .quoted) :
    (s.step '\n').mode = .betweenRecords ∧ (s.step '\n').records.reverse = s.finish := by
  unfold Scanner.step Scanner.finish
  cases hmode : s.mode with
  | betweenRecords => exact ⟨rfl, rfl⟩
  | quoted => exact absurd hmode h
  | fieldStart | plain | quoteSeen => exact ⟨rfl, rfl⟩

theorem scan_concat (cs : List Char) (c : Char) : scan (cs ++ [c]) = (scan cs).step c := by
  rw [scan, List.foldl_append]
  rfl

theorem cells_concat (h : (scan cs).mode ≠ .quoted) : cells (cs ++ ['\n']) = cells cs := by
  obtain ⟨hmode, hrecords⟩ := step_lineEnd h
  rw [cells, cells, scan_concat, Scanner.finish, if_pos hmode, hrecords]

/-- A step may end one record. -/
theorem records_step (s : Scanner) (c : Char) : (s.step c).records = s.records ∨
    (s.step c).mode = .betweenRecords ∧ ∃ r, (s.step c).records = r :: s.records := by
  -- two actions can end a record, and every mode takes one of them or none
  have hbare : ∀ s : Scanner, (s.bare c).records = s.records ∨
      (s.bare c).mode = .betweenRecords ∧ ∃ r, (s.bare c).records = r :: s.records := by
    intro s
    unfold Scanner.bare
    split
    · exact .inl rfl
    · split
      · exact .inr ⟨rfl, _, rfl⟩
      · exact .inl rfl
  have hopening : ∀ s : Scanner, (s.opening c).records = s.records ∨
      (s.opening c).mode = .betweenRecords ∧ ∃ r, (s.opening c).records = r :: s.records := by
    intro s
    unfold Scanner.opening
    split
    · exact .inl rfl
    · exact hbare s
  unfold Scanner.step
  cases s.mode with
  | betweenRecords =>
    simp only
    split
    · exact .inl rfl
    · exact hopening _
  | fieldStart => exact hopening _
  | plain => exact hbare _
  | quoted =>
    simp only
    split
    · exact .inl rfl
    · exact .inl rfl
  | quoteSeen =>
    simp only
    split
    · exact .inl rfl
    · exact hbare _

/-- The rows of the beginning of a text, and the rest of it. -/
theorem exists_rows_before (cs : List Char) : ∃ rows records rest,
    cs = rows.flatten ++ rest ∧ List.Forall₂ IsRow rows records ∧ (scan rest).records = [] := by
  induction cs using List.reverseRecOn with
  | nil => exact ⟨[], [], [], rfl, .nil, rfl⟩
  | append_singleton cs c ih =>
    obtain ⟨rows, records, rest, rfl, hrows, hrest⟩ := ih
    -- one more character either ends a record, and then a row, or adds to the rest
    rcases records_step (scan rest) c with hsame | ⟨hmode, r, hadded⟩
    · refine ⟨rows, records, rest ++ [c], List.append_assoc _ _ _, hrows, ?_⟩
      rw [scan_concat, hsame, hrest]
    · have hrow : IsRow (rest ++ [c]) r.fields := by
        rw [← scan_concat] at hmode hadded
        exact ⟨hmode, by rw [hadded, hrest]; rfl⟩
      refine ⟨rows ++ [rest ++ [c]], records ++ [r.fields], [], ?_, ?_, rfl⟩
      · simp
      · exact List.rel_append hrows (.cons hrow .nil)

/-- Empty lines belong to the row before them. -/
theorem exists_rows_of_blank {rows : List (List Char)} {records : List (List String)}
    {blank : List Char} (h : List.Forall₂ IsRow rows records) (hsome : records ≠ [])
    (hmode : (scan blank).mode = .betweenRecords) (hnone : (scan blank).records = []) :
    ∃ rows', rows.flatten ++ blank = rows'.flatten ∧ List.Forall₂ IsRow rows' records := by
  induction h with
  | nil => exact absurd rfl hsome
  | @cons row fields rows records hrow hrows ih =>
    -- only the last row takes them in
    cases hrows with
    | nil =>
      have hfollows := hrow.follows blank
      refine ⟨[row ++ blank], by simp, .cons ⟨hfollows.mode.trans hmode, ?_⟩ .nil⟩
      rw [hfollows.records, hnone]
      rfl
    | cons hrow' hrows =>
      obtain ⟨rows', htext, hrows'⟩ := ih (List.cons_ne_nil _ _)
      refine ⟨row :: rows', ?_, .cons hrow hrows'⟩
      rw [List.flatten_cons, List.append_assoc, htext, List.flatten_cons]

/-- A text in which quotes are closed, with a line end behind it, is made of rows. -/
theorem exists_rows (h : (scan cs).mode ≠ .quoted) (hsome : cells cs ≠ []) :
    ∃ rows, cs ++ ['\n'] = rows.flatten ∧ List.Forall₂ IsRow rows (cells cs) := by
  obtain ⟨rows, records, rest, rfl, hrows, hnone⟩ := exists_rows_before cs
  rw [(follows_flatten hrows rest).mode] at h
  obtain ⟨hmode, hrecords⟩ := step_lineEnd h
  rw [← scan_concat] at hmode hrecords
  rw [cells_append hrows] at hsome ⊢
  rw [List.append_assoc]
  by_cases hbetween : (scan rest).mode = .betweenRecords
  · -- what is left are empty lines
    have hfinish : (scan rest).finish = [] := by
      rw [Scanner.finish, if_pos hbetween, hnone]
      rfl
    rw [hfinish, List.reverse_eq_nil_iff] at hrecords
    have hcells : cells rest = [] := by
      rw [cells, hfinish]
      rfl
    rw [hcells, List.append_nil] at hsome ⊢
    exact exists_rows_of_blank hrows hsome hmode hrecords
  · -- what is left is the last row, which the line end closes
    obtain ⟨r, hfinish⟩ : ∃ r, (scan rest).finish = [r] := by
      rw [Scanner.finish, if_neg hbetween, Scanner.endRecord, hnone]
      exact ⟨_, rfl⟩
    have hrow : IsRow (rest ++ ['\n']) r.fields := by
      refine ⟨hmode, ?_⟩
      rw [← List.reverse_reverse (scan _).records, hrecords, hfinish]
      rfl
    have hcells : cells rest = [r.fields] := by
      rw [cells, hfinish]
      rfl
    refine ⟨rows ++ [rest ++ ['\n']], by simp, ?_⟩
    rw [hcells]
    exact List.rel_append hrows (.cons hrow .nil)

/-! ## Reordered tables -/

/-- A text without the mark that may stand in front of it. -/
def skipMark : List Char → List Char
  | c :: rest => if c = byteOrderMark then rest else c :: rest
  | [] => []

theorem skipMark_append {cs : List Char} (h : cs ≠ []) (rest : List Char) :
    skipMark (cs ++ rest) = skipMark cs ++ rest := by
  cases cs with
  | nil => exact absurd rfl h
  | cons c cs =>
    rw [List.cons_append, skipMark, skipMark]
    split
    · rfl
    · rfl

theorem fields_read (s : String) : (read s).map (·.fields) = cells (skipMark s.toList) := by
  unfold read
  cases s.toList with
  | nil => rfl
  | cons c rest =>
    simp only [skipMark]
    split
    · have hplace : Scanner.Follows [] (.initial .first) (.initial (Position.first.after c)) :=
        ⟨rfl, rfl, rfl, rfl⟩
      exact (hplace.foldl rest).finish
    · rfl

/-- The tables have the same header, and the same rows in another order. -/
def SameRows (s s' : String) : Prop :=
  ∃ header rows rows', (read s).map (·.fields) = header :: rows ∧
    (read s').map (·.fields) = header :: rows' ∧ rows.Perm rows'

/-- The texts of the header and of the rows of a table, in which the last line has an end. -/
structure Lines (s : String) (header : List Char) (rows : List (List Char)) : Prop where
  text : s.toList ++ ['\n'] = header ++ rows.flatten
  header : ∃ fields, IsRow (skipMark header) fields
  rows : ∃ records, List.Forall₂ IsRow rows records

theorem skipMark_header {header : List Char} (h : IsRow (skipMark header) fields)
    (rest : List Char) : skipMark (header ++ rest) = skipMark header ++ rest := by
  refine skipMark_append ?_ rest
  rintro rfl
  cases h.records

variable {s : String} {header : List Char} {rows rows' : List (List Char)}

/-- The rows of a table may be written in any order. -/
theorem SameRows.of_perm (h : Lines s header rows) (hperm : rows.Perm rows') :
    SameRows s (String.ofList (header ++ rows'.flatten)) := by
  obtain ⟨fields, hheader⟩ := h.header
  obtain ⟨records, hrows⟩ := h.rows
  obtain ⟨records', hrows', hrecords⟩ := exists_perm_cells hrows hperm
  have htext : skipMark s.toList ++ ['\n'] = (skipMark header :: rows).flatten := by
    rw [List.flatten_cons, ← skipMark_header hheader, ← h.text]
    cases s.toList with
    | nil => rfl
    | cons c cs => exact (skipMark_append (List.cons_ne_nil _ _) _).symm
  -- the reader stands between two records at the end, so no quote is left open
  have hclosed : (scan (skipMark s.toList)).mode ≠ .quoted := by
    intro hquoted
    have hend : (scan ((skipMark header :: rows).flatten ++ [])).mode = .betweenRecords :=
      (follows_flatten (.cons hheader hrows) []).mode
    rw [List.append_nil, ← htext, scan_concat, Scanner.step] at hend
    simp only [hquoted] at hend
    cases hend
  refine ⟨fields, records, records', ?_, ?_, hrecords⟩
  · rw [fields_read, ← cells_concat hclosed, htext, ← List.append_nil (List.flatten _),
      cells_append (.cons hheader hrows)]
    exact List.append_nil _
  · rw [fields_read, String.toList_ofList, skipMark_header hheader,
      ← List.append_nil (_ ++ rows'.flatten), ← List.flatten_cons,
      cells_append (.cons hheader hrows')]
    exact List.append_nil _

/-- Every table in which quotes are closed is written in lines. -/
theorem exists_lines (hclosed : (scan (skipMark s.toList)).mode ≠ .quoted) (hsome : read s ≠ []) :
    ∃ header rows, Lines s header rows := by
  have hcells : cells (skipMark s.toList) ≠ [] := by
    rw [← fields_read]
    exact fun h => hsome (List.map_eq_nil_iff.mp h)
  obtain ⟨lines, htext, hlines⟩ := exists_rows hclosed hcells
  obtain ⟨fields, records, hfields⟩ := List.exists_cons_of_ne_nil hcells
  rw [hfields] at hlines
  cases hlines with
  | @cons header _ rows _ hheader hrows =>
    rw [List.flatten_cons] at htext
    cases hs : s.toList with
    | nil =>
      rw [hs] at hcells
      exact absurd rfl hcells
    | cons c rest =>
      rw [hs, skipMark] at htext
      split at htext
      · rename_i hmark
        refine ⟨c :: header, rows, ?_, ⟨fields, ?_⟩, records, hrows⟩
        · rw [hs, List.cons_append, htext, List.cons_append]
        · rwa [skipMark, if_pos hmark]
      · rename_i hmark
        refine ⟨header, rows, by rw [hs, htext], ⟨fields, ?_⟩, records, hrows⟩
        -- the header begins as the table does, without the mark
        cases header with
        | nil => exact hheader
        | cons d header =>
          obtain ⟨rfl, -⟩ := List.cons.inj htext
          rwa [skipMark, if_neg hmark]

end FactorStudy.Csv
