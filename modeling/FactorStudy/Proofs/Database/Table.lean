import FactorStudy.Proofs.Outcome
import FactorStudy.Proofs.Time.ColumnText
import FactorStudy.Database.Bars

/-!
# What a table of bars holds

A table keeps a bar with its time to the second, and its zeros without a sign (`Bar.stored`). After
any panels were inserted, the rows of a symbol and a bar length are those of the bars that were
written for them, each in the place of an earlier one with the same time
(`series_of_insertPanels`, `foldl_addBar`).
-/

namespace FactorStudy

/-! ## Bars in rows -/

/-- A number as a column keeps it. -/
def keptNumber (x : Float) : Float := if x == 0 then 0 else x

/-- A bar as a table keeps it. -/
def Bar.stored (b : Bar Float) : Bar Float :=
  ⟨b.timestamp.toSecond, keptNumber b.open, keptNumber b.high, keptNumber b.low,
    keptNumber b.close, keptNumber b.volume⟩

/-- A bar of numbers that are defined. -/
def Bar.IsDefined (b : Bar Float) : Prop := ∀ column, (b.get column).isNaN = false

theorem keptNumber_keptNumber (x : Float) : keptNumber (keptNumber x) = keptNumber x := by
  unfold keptNumber
  by_cases h : (x == 0) = true
  · rw [if_pos h]
    exact ite_self 0
  · rw [if_neg h, if_neg h]

/-- Different bar lengths have different texts. -/
theorem Interval.text_inj {i j : Interval} : i.text = j.text ↔ i = j := by
  refine ⟨fun h => ?_, fun h => h ▸ rfl⟩
  obtain ⟨u, m, hm⟩ := i
  obtain ⟨v, n, hn⟩ := j
  -- the unit is the last character, so the rest is the count
  have hsymbol : ∀ w : BarUnit, ∃ c, w.symbol.toList = [c] := by
    intro w
    cases w <;> exact ⟨_, rfl⟩
  obtain ⟨c, hc⟩ := hsymbol u
  obtain ⟨d, hd⟩ := hsymbol v
  have hchars := congrArg String.toList h
  simp only [text, String.toList_append, hc, hd, List.append_singleton_inj] at hchars
  obtain ⟨hcount, hunit⟩ := hchars
  obtain rfl : m = n := Nat.repr_inj.mp (String.toList_inj.mp hcount)
  have hunit : u.symbol = v.symbol := String.toList_inj.mp (by rw [hc, hd, hunit])
  obtain rfl : u = v := by
    revert hunit
    cases u <;> cases v <;> decide
  rfl

theorem Database.column_eq_ok (table name : String) {x : Float} (h : x.isNaN = false) :
    column table name x = .ok (keptNumber x) := by
  unfold Database.column keptNumber
  rw [if_neg (by rw [h]; exact Bool.false_ne_true)]
  split_ifs
  · rfl
  · rfl

namespace BarRow

/-- The row of a bar that has a value in every column. -/
def of (symbol : String) (interval : Interval) (b : Bar Float) : BarRow where
  symbol
  interval := interval.text
  timestamp := b.timestamp.columnText
  «open» := keptNumber b.open
  high := keptNumber b.high
  low := keptNumber b.low
  close := keptNumber b.close
  volume := keptNumber b.volume

variable {symbol : String} {interval : Interval} {b : Bar Float}

theorem of_stored : of symbol interval b.stored = of symbol interval b := by
  simp only [of, Bar.stored, keptNumber_keptNumber, Timestamp.columnText_toSecond]

theorem column_eq (name : String) {x y : Float}
    (h : Database.column Database.barTable name x = .ok y) : y = keptNumber x := by
  unfold Database.column at h
  unfold keptNumber
  split_ifs at h ⊢
  · exact (Except.ok.inj h).symm
  · exact (Except.ok.inj h).symm

theorem eq_of_ofBar {row : BarRow} (h : ofBar symbol interval b = .ok row) :
    row = of symbol interval b := by
  obtain ⟨o, ho, h⟩ := exists_of_bind_eq_ok h
  obtain ⟨x, hx, h⟩ := exists_of_bind_eq_ok h
  obtain ⟨y, hy, h⟩ := exists_of_bind_eq_ok h
  obtain ⟨c, hc, h⟩ := exists_of_bind_eq_ok h
  obtain ⟨v, hv, h⟩ := exists_of_bind_eq_ok h
  rw [← Except.ok.inj h, column_eq _ ho, column_eq _ hx, column_eq _ hy, column_eq _ hc,
    column_eq _ hv]
  rfl

theorem ofBar_eq_ok (h : b.IsDefined) : ofBar symbol interval b = .ok (of symbol interval b) := by
  have hopen : b.open.isNaN = false := h .open
  have hhigh : b.high.isNaN = false := h .high
  have hlow : b.low.isNaN = false := h .low
  have hclose : b.close.isNaN = false := h .close
  have hvolume : b.volume.isNaN = false := h .volume
  simp only [ofBar, Database.column_eq_ok _ _ hopen, Database.column_eq_ok _ _ hhigh,
    Database.column_eq_ok _ _ hlow,
    Database.column_eq_ok _ _ hclose, Database.column_eq_ok _ _ hvolume]
  rfl

theorem bar_of (hb : b.timestamp.HasPlainYear) : (of symbol interval b).bar = .ok b.stored := by
  rw [bar, of, Timestamp.readColumn?_columnText hb]
  rfl

end BarRow

/-! ## One series of a table -/

namespace Database

/-- The rows of one symbol and bar length. -/
def series (symbol : String) (interval : Interval) (rows : List BarRow) : List BarRow :=
  rows.filter fun r => r.symbol == symbol && r.interval == interval.text

/-- The rows of a series with one more bar. -/
def addBar (symbol : String) (interval : Interval) (rows : List BarRow) (b : Bar Float) :
    List BarRow :=
  rows.filter (fun r => r.timestamp != b.timestamp.columnText) ++ [BarRow.of symbol interval b]

/-- The bars that are written for a symbol and a bar length, in the order of the writing. -/
def written (panels : List (Panel Float)) (symbol : String) (interval : Interval) :
    List (Bar Float) :=
  (panels.filter fun p => p.symbol == symbol && p.interval == interval).flatMap (·.bars)

/-- The database with the bars of panels, one panel after the other. -/
def insertPanels (db : Database) (panels : List (Panel Float)) : Outcome Database :=
  panels.foldlM insertPanel db

theorem keys_beq_eq_false {a b c d : String} (h : ¬ (a = b ∧ c = d)) :
    (a == b && c == d) = false := by
  rw [Bool.eq_false_iff, Ne, Bool.and_eq_true, beq_iff_eq, beq_iff_eq]
  exact h

variable {db db' : Database} {rows : List BarRow}

theorem series_of_insertBar {p : String} {i : Interval} {b : Bar Float}
    (hrows : db.bars = some rows)
    (h : insertBar p i db b = .ok db') :
    ∃ rows', db'.bars = some rows' ∧ ∀ symbol interval, series symbol interval rows' =
      if p = symbol ∧ i = interval then addBar symbol interval (series symbol interval rows) b
      else series symbol interval rows := by
  obtain ⟨rows₀, hrows₀, h⟩ := exists_of_bind_eq_ok h
  rw [hrows] at hrows₀
  cases hrows₀
  obtain ⟨row, hrow, h⟩ := exists_of_bind_eq_ok h
  rw [BarRow.eq_of_ofBar hrow] at h
  cases h
  refine ⟨_, rfl, fun symbol interval => ?_⟩
  rw [replace, series, List.filter_append, List.filter_filter]
  split_ifs with hkey
  · -- within the series, rows with the same key are those with the same time
    obtain ⟨rfl, rfl⟩ := hkey
    rw [addBar, series, List.filter_filter]
    congr 1
    · refine List.filter_congr fun r _ => ?_
      by_cases hr : r.symbol = p ∧ r.interval = i.text
      · simp [BarRow.sameKey, BarRow.of, hr.1, hr.2, bne, eq_comm]
      · rw [keys_beq_eq_false hr, Bool.false_and, Bool.and_false]
    · simp [BarRow.of]
  · -- no row of another series has the same key, and the new row is not of this one
    have hother : ¬ (p = symbol ∧ i.text = interval.text) := by
      rwa [Interval.text_inj]
    have hrow : [BarRow.of p i b].filter
        (fun r => r.symbol == symbol && r.interval == interval.text) = [] := by
      simpa [BarRow.of] using hother
    rw [hrow, List.append_nil]
    refine List.filter_congr fun r _ => ?_
    by_cases hr : r.symbol = symbol ∧ r.interval = interval.text
    · have hdiffer : (BarRow.of p i b).sameKey r = false := by
        rw [BarRow.sameKey, hr.1, hr.2]
        rw [BarRow.of, keys_beq_eq_false hother, Bool.false_and]
      rw [hdiffer, Bool.not_false, Bool.and_true]
    · rw [keys_beq_eq_false hr, Bool.false_and]

theorem series_of_insertBars {p : String} {i : Interval} (bars : List (Bar Float)) :
    ∀ {db : Database} {rows : List BarRow}, db.bars = some rows →
      bars.foldlM (insertBar p i) db = .ok db' →
        ∃ rows', db'.bars = some rows' ∧ ∀ symbol interval, series symbol interval rows' =
          if p = symbol ∧ i = interval then
            bars.foldl (addBar symbol interval) (series symbol interval rows)
          else series symbol interval rows := by
  induction bars with
  | nil =>
    intro db rows hrows h
    cases h
    exact ⟨rows, hrows, fun symbol interval => (ite_self _).symm⟩
  | cons b bars ih =>
    intro db rows hrows h
    rw [List.foldlM_cons] at h
    obtain ⟨next, hnext, h⟩ := exists_of_bind_eq_ok h
    -- the first bar goes to one series only, and the others go on from its rows
    obtain ⟨rows₁, hrows₁, hseries₁⟩ := series_of_insertBar hrows hnext
    obtain ⟨rows', hrows', hseries⟩ := ih hrows₁ h
    refine ⟨rows', hrows', fun symbol interval => ?_⟩
    rw [hseries, hseries₁]
    split_ifs
    · rw [List.foldl_cons]
    · rfl

/-- The bars that a panel adds to a series, which are none if it is about another one. -/
theorem written_singleton (p : Panel Float) (symbol : String) (interval : Interval) :
    written [p] symbol interval =
      if p.symbol = symbol ∧ p.interval = interval then p.bars else [] := by
  unfold written
  split_ifs with hkey
  · simp [hkey.1, hkey.2]
  · have hother : (p.symbol == symbol && p.interval == interval) = false := by
      simpa using hkey
    simp [hother]

/-- Every series has its own bars added, in the order of the writing. -/
theorem series_of_insertPanels (panels : List (Panel Float)) :
    ∀ {db : Database} {rows : List BarRow}, db.bars = some rows →
      db.insertPanels panels = .ok db' →
        ∃ rows', db'.bars = some rows' ∧ ∀ symbol interval, series symbol interval rows' =
          (written panels symbol interval).foldl (addBar symbol interval)
            (series symbol interval rows) := by
  induction panels with
  | nil =>
    intro db rows hrows h
    cases h
    exact ⟨rows, hrows, fun symbol interval => rfl⟩
  | cons p panels ih =>
    intro db rows hrows h
    rw [insertPanels, List.foldlM_cons] at h
    obtain ⟨next, hnext, h⟩ := exists_of_bind_eq_ok h
    obtain ⟨rows₁, hrows₁, hseries₁⟩ := series_of_insertBars p.bars hrows hnext
    obtain ⟨rows', hrows', hseries⟩ := ih hrows₁ h
    refine ⟨rows', hrows', fun symbol interval => ?_⟩
    -- what is written for a series is panel after panel
    have hsplit : written (p :: panels) symbol interval =
        written [p] symbol interval ++ written panels symbol interval := by
      simp only [written, ← List.singleton_append (l := panels), List.filter_append,
        List.flatMap_append]
    rw [hseries, hseries₁, hsplit, List.foldl_append, written_singleton]
    split_ifs
    · rfl
    · rfl

/-- Panels of defined numbers are all inserted. -/
theorem exists_insertPanels {panels : List (Panel Float)}
    (h : ∀ p ∈ panels, ∀ b ∈ p.bars, b.IsDefined) {db : Database} (hdb : db.bars.isSome) :
    ∃ db', db.insertPanels panels = .ok db' ∧ db'.bars.isSome := by
  refine exists_foldlM_eq_ok (fun db hdb p hp => ?_) hdb
  refine exists_foldlM_eq_ok (fun db hdb b hb => ?_) hdb
  obtain ⟨rows, hrows⟩ := Option.isSome_iff_exists.mp hdb
  rw [insertBar, hrows, BarRow.ofBar_eq_ok (h p hp b hb)]
  exact ⟨_, rfl, rfl⟩

end Database

/-! ## The last bar of each time -/

/-- The bars of a history, each in the place of an earlier one of its time. -/
def lastWritten (history : List (Bar Float)) : List (Bar Float) :=
  history.foldl (fun bars b => bars.filter (fun c => c.timestamp ≠ b.timestamp) ++ [b]) []

/-- A bar is the last one of its time in a history. -/
def IsLast (b : Bar Float) (history : List (Bar Float)) : Prop :=
  ∃ before after, history = before ++ b :: after ∧ ∀ c ∈ after, c.timestamp ≠ b.timestamp

theorem lastWritten_concat (history : List (Bar Float)) (b : Bar Float) :
    lastWritten (history ++ [b]) =
      (lastWritten history).filter (fun c => c.timestamp ≠ b.timestamp) ++ [b] :=
  List.foldl_append

theorem isLast_concat {history : List (Bar Float)} {b c : Bar Float} :
    IsLast b (history ++ [c]) ↔ b = c ∨ IsLast b history ∧ c.timestamp ≠ b.timestamp := by
  constructor
  · rintro ⟨before, after, hsplit, hlast⟩
    -- the new bar is the last of its time, or some older one still is
    rcases List.eq_nil_or_concat after with rfl | ⟨after, d, rfl⟩
    · exact Or.inl (List.append_singleton_inj.mp hsplit).2.symm
    · rw [List.concat_eq_append, ← List.cons_append, ← List.append_assoc] at hsplit
      obtain ⟨hhistory, rfl⟩ := List.append_singleton_inj.mp hsplit
      have hmore : ∀ e ∈ after ++ [c], e.timestamp ≠ b.timestamp := by
        simpa only [List.concat_eq_append] using hlast
      refine Or.inr ⟨⟨before, after, hhistory, fun e he => ?_⟩, ?_⟩
      · exact hmore e (List.mem_append_left _ he)
      · exact hmore c (List.mem_append_right _ (List.mem_singleton_self c))
  · rintro (rfl | ⟨⟨before, after, rfl, hlast⟩, hne⟩)
    · exact ⟨history, [], rfl, fun d hd => absurd hd List.not_mem_nil⟩
    · refine ⟨before, after ++ [c], by rw [List.append_assoc, List.cons_append], fun d hd => ?_⟩
      rcases List.mem_append.mp hd with hd | hd
      · exact hlast d hd
      · rwa [List.mem_singleton.mp hd]

theorem mem_lastWritten {history : List (Bar Float)} {b : Bar Float} :
    b ∈ lastWritten history ↔ IsLast b history := by
  induction history using List.reverseRecOn with
  | nil =>
    refine ⟨fun h => absurd h List.not_mem_nil, ?_⟩
    rintro ⟨before, after, hsplit, -⟩
    exact absurd hsplit.symm (List.append_ne_nil_of_right_ne_nil _ (List.cons_ne_nil _ _))
  | append_singleton history c ih =>
    rw [lastWritten_concat, isLast_concat, List.mem_append, List.mem_singleton, List.mem_filter, ih,
      decide_eq_true_iff, or_comm, ne_comm]

theorem mem_of_mem_lastWritten {history : List (Bar Float)} {b : Bar Float}
    (h : b ∈ lastWritten history) : b ∈ history := by
  obtain ⟨before, after, rfl, -⟩ := mem_lastWritten.mp h
  exact List.mem_append_right _ List.mem_cons_self

theorem pairwise_lastWritten (history : List (Bar Float)) :
    (lastWritten history).Pairwise fun a b => a.timestamp ≠ b.timestamp := by
  induction history using List.reverseRecOn with
  | nil => exact .nil
  | append_singleton history c ih =>
    rw [lastWritten_concat, List.pairwise_append]
    refine ⟨ih.filter _, List.pairwise_singleton _ _, fun a ha d hd => ?_⟩
    rw [List.mem_singleton.mp hd]
    exact of_decide_eq_true (List.mem_filter.mp ha).2

theorem exists_isLast {history : List (Bar Float)} {b : Bar Float} (h : b ∈ history) :
    ∃ c, IsLast c history ∧ c.timestamp = b.timestamp := by
  induction history using List.reverseRecOn with
  | nil => exact absurd h List.not_mem_nil
  | append_singleton history d ih =>
    by_cases hd : d.timestamp = b.timestamp
    · exact ⟨d, isLast_concat.mpr (Or.inl rfl), hd⟩
    · rcases List.mem_append.mp h with h | h
      · obtain ⟨c, hc, htime⟩ := ih h
        exact ⟨c, isLast_concat.mpr (Or.inr ⟨hc, htime ▸ hd⟩), htime⟩
      · exact absurd (congrArg Bar.timestamp (List.mem_singleton.mp h).symm) hd

theorem Bar.stored_stored (b : Bar Float) : b.stored.stored = b.stored := by
  simp only [stored, keptNumber_keptNumber, Timestamp.toSecond_toSecond]

/-- Bars at whole seconds replace one another as they are stored. -/
theorem lastWritten_map_stored {history : List (Bar Float)}
    (h : ∀ b ∈ history, b.timestamp.toSecond = b.timestamp) :
    lastWritten (history.map Bar.stored) = (lastWritten history).map Bar.stored := by
  induction history using List.reverseRecOn with
  | nil => rfl
  | append_singleton history b ih =>
    have hb := h b (List.mem_append_right _ (List.mem_singleton_self b))
    have hhistory := fun c hc => h c (List.mem_append_left [b] hc)
    rw [List.map_append, List.map_singleton, lastWritten_concat, ih hhistory, lastWritten_concat,
      List.map_append, List.map_singleton, List.filter_map]
    congr 2
    refine List.filter_congr fun c hc => ?_
    show decide (c.timestamp.toSecond ≠ b.timestamp.toSecond) = _
    rw [hhistory c (mem_of_mem_lastWritten hc), hb]

/-- The bars that are kept are those last written when each of these is kept as it is. -/
theorem lastWritten_map_stored_eq {history : List (Bar Float)}
    (h : ∀ b, IsLast b history → b.stored = b) :
    lastWritten (history.map Bar.stored) = lastWritten history := by
  -- a bar that was replaced has the time of a last one, so all times are whole seconds
  have hwhole : ∀ b ∈ history, b.timestamp.toSecond = b.timestamp := by
    intro b hb
    obtain ⟨c, hc, htime⟩ := exists_isLast hb
    rw [← htime]
    exact congrArg Bar.timestamp (h c hc)
  have hsame : ∀ b ∈ lastWritten history, b.stored = id b := fun b hb => h b (mem_lastWritten.mp hb)
  rw [lastWritten_map_stored hwhole, List.map_congr_left hsame, List.map_id]

/-- The rows of a series are those of the last bars of each second. -/
theorem Database.foldl_addBar {history : List (Bar Float)}
    (hplain : ∀ b ∈ history, b.timestamp.HasPlainYear) (symbol : String) (interval : Interval) :
    history.foldl (addBar symbol interval) [] =
      (lastWritten (history.map Bar.stored)).map (BarRow.of symbol interval) := by
  induction history using List.reverseRecOn with
  | nil => rfl
  | append_singleton history b ih =>
    have hb := hplain b (List.mem_append_right _ (List.mem_singleton_self b))
    have hhistory := fun c hc => hplain c (List.mem_append_left [b] hc)
    rw [List.foldl_append, ih hhistory, List.map_append, List.map_singleton, lastWritten_concat,
      List.map_append, List.map_singleton, BarRow.of_stored]
    show List.filter _ _ ++ [_] = _
    rw [List.filter_map]
    congr 2
    -- a text is replaced by the same text, which is the same second
    refine List.filter_congr fun c hc => ?_
    obtain ⟨d, hd, rfl⟩ := List.mem_map.mp (mem_of_mem_lastWritten hc)
    have htext := Timestamp.columnText_inj (hhistory d hd) hb
    have hrow : (BarRow.of symbol interval d.stored).timestamp = d.timestamp.columnText :=
      d.timestamp.columnText_toSecond
    show ((BarRow.of symbol interval d.stored).timestamp != b.timestamp.columnText) =
      decide (d.timestamp.toSecond ≠ b.timestamp.toSecond)
    rw [hrow, bne, decide_not, beq_eq_decide, decide_eq_decide.mpr htext]

end FactorStudy
