import FactorStudy.Proofs.Database.Table

/-!
# What a table of bars answers

The bars of a range come back from a table as from a panel at hand, as far as texts of times allow:
the table knows a time to the second only, and puts years of four digits only in order. Within these
years, the answer for a symbol and a bar length is that of the panel of the bars it kept, where a
bound at the start counts from the beginning of its second (`Database.fetch_of_insertPanels`).
-/

namespace FactorStudy

/-! ## A range of a panel -/

/-- Bars in order have no disorder. -/
theorem disorder?_eq_none {α : Type} {bars : List (Bar α)} (h : Increasing bars) :
    ∀ position, disorder? position bars = none := by
  induction bars with
  | nil => exact fun _ => rfl
  | cons a rest ih =>
    obtain ⟨hfirst, hrest⟩ := List.pairwise_cons.mp h
    intro position
    cases rest with
    | nil => rfl
    | cons b rest =>
      have hlt : ¬ b.timestamp ≤ a.timestamp := Int.not_le.mpr (hfirst b List.mem_cons_self)
      rw [disorder?, if_neg hlt]
      exact ih hrest _

theorem Panel.of_eq_ok {α : Type} {symbol : String} {interval : Interval} {bars : List (Bar α)}
    (h : Increasing bars) : Panel.of symbol interval bars = .ok ⟨symbol, interval, bars, h⟩ := by
  unfold Panel.of
  split
  · rfl
  · rename_i hsome
    rw [disorder?_eq_none h] at hsome
    cases hsome

/-- The bars of a panel between two optional bounds. -/
def Panel.between (p : Panel Float) (start finish : Option Timestamp) : Panel Float :=
  ⟨p.symbol, p.interval, p.bars.filter fun b => b.timestamp.inRange start finish,
    p.increasing.filter _⟩

/-- The bars between two bounds, and a failure when there are none. -/
def Panel.answer (p : Panel Float) (start finish : Option Timestamp) : Outcome (Panel Float) :=
  if (p.between start finish).bars.isEmpty then .error (.noData p.symbol p.interval)
  else .ok (p.between start finish)

theorem Panel.between_none (p : Panel Float) : p.between none none = p := by
  have hall : p.bars.filter (fun b => b.timestamp.inRange none none) = p.bars :=
    List.filter_eq_self.mpr fun _ _ => rfl
  obtain ⟨symbol, interval, bars, increasing⟩ := p
  simp only [between, hall]

/-- A panel is known from its answer without bounds. -/
theorem Panel.eq_of_answer_eq {p q : Panel Float} (hsymbol : p.symbol = q.symbol)
    (hinterval : p.interval = q.interval) (h : p.answer none none = q.answer none none) :
    p = q := by
  unfold answer at h
  rw [between_none, between_none] at h
  split_ifs at h with hp hq
  · obtain ⟨symbol, interval, bars, increasing⟩ := p
    obtain ⟨symbol', interval', bars', increasing'⟩ := q
    obtain rfl : symbol = symbol' := hsymbol
    obtain rfl : interval = interval' := hinterval
    obtain rfl : bars = bars' := (List.isEmpty_iff.mp hp).trans (List.isEmpty_iff.mp hq).symm
    rfl
  · exact Except.ok.inj h

/-- What a query finds in order is given back. -/
theorem Query.panelOf_between (p : Panel Float) (q : Query) (hsymbol : q.symbol = p.symbol)
    (hinterval : q.interval = p.interval) (start finish : Option Timestamp) :
    q.panelOf (p.between start finish).bars = p.answer start finish := by
  unfold panelOf Panel.answer
  rw [hsymbol, hinterval]
  split
  · rfl
  · rw [Panel.of_eq_ok (p.between start finish).increasing]
    rfl

/-- A panel at hand answers from its bars. -/
theorem Query.answer_singleton (p : Panel Float) (start finish : Option Timestamp) :
    Query.answer ⟨p.symbol, p.interval, start, finish⟩ [p] = p.answer start finish := by
  rw [← panelOf_between p ⟨p.symbol, p.interval, start, finish⟩ rfl rfl, answer, select]
  congr 1
  simp [Panel.between]

namespace Database

/-! ## The panel that is kept -/

/-- The order of bars by their times. -/
def byTime (a b : Bar Float) : Bool := decide (a.timestamp ≤ b.timestamp)

/-- The order of rows by the texts of their times. -/
def byText (a b : BarRow) : Bool := decide (a.timestamp ≤ b.timestamp)

theorem perm_sorted (bars : List (Bar Float)) : (bars.mergeSort byTime).Perm bars :=
  List.mergeSort_perm bars byTime

/-- Bars at different times are put in strict order. -/
theorem increasing_sorted {bars : List (Bar Float)}
    (h : bars.Pairwise fun a b => a.timestamp ≠ b.timestamp) :
    Increasing (bars.mergeSort byTime) := by
  have hsorted : (bars.mergeSort byTime).Pairwise fun a b => byTime a b = true := by
    refine List.pairwise_mergeSort ?_ ?_ bars
    · intro a b c hab hbc
      exact decide_eq_true (Int.le_trans (of_decide_eq_true hab) (of_decide_eq_true hbc))
    · intro a b
      rw [Bool.or_eq_true]
      exact (Int.le_total _ _).imp decide_eq_true decide_eq_true
  have hdistinct : (bars.mergeSort byTime).Pairwise fun a b => a.timestamp ≠ b.timestamp :=
    ((perm_sorted bars).pairwise_iff fun hne => hne.symm).mpr h
  exact (hsorted.and hdistinct).imp fun ⟨hle, hne⟩ =>
    Timestamp.lt_of_le_of_ne (of_decide_eq_true hle) hne

/-- There is one way to put bars in strict order. -/
theorem eq_of_perm_of_increasing {bars bars' : List (Bar Float)} (hperm : bars.Perm bars')
    (h : Increasing bars) (h' : Increasing bars') : bars = bars' := by
  refine hperm.eq_of_pairwise ?_ h h'
  intro a b _ _ hab hba
  exact absurd (Int.lt_trans hab hba) (Int.lt_irrefl _)

/-- Bars in range may be taken before they are sorted or after. -/
theorem sorted_filter {bars : List (Bar Float)}
    (h : bars.Pairwise fun a b => a.timestamp ≠ b.timestamp) (p : Bar Float → Bool) :
    (bars.filter p).mergeSort byTime = (bars.mergeSort byTime).filter p := by
  have hperm : ((bars.filter p).mergeSort byTime).Perm ((bars.mergeSort byTime).filter p) :=
    (perm_sorted _).trans ((perm_sorted bars).symm.filter p)
  exact eq_of_perm_of_increasing hperm (increasing_sorted (h.filter p))
    ((increasing_sorted h).filter p)

/-- The order in which bars come does not matter. -/
theorem sorted_of_perm {bars bars' : List (Bar Float)}
    (h : bars.Pairwise fun a b => a.timestamp ≠ b.timestamp) (hperm : bars.Perm bars') :
    bars.mergeSort byTime = bars'.mergeSort byTime := by
  have h' := (hperm.pairwise_iff fun hne => hne.symm).mp h
  exact eq_of_perm_of_increasing ((perm_sorted _).trans (hperm.trans (perm_sorted _).symm))
    (increasing_sorted h) (increasing_sorted h')

/-- Bars that are in strict order once they are sorted have different times. -/
theorem distinct_of_increasing_sorted {bars : List (Bar Float)}
    (h : Increasing (bars.mergeSort byTime)) :
    bars.Pairwise fun a b => a.timestamp ≠ b.timestamp := by
  refine ((perm_sorted bars).pairwise_iff fun hne => hne.symm).mp (h.imp fun hlt heq => ?_)
  rw [heq] at hlt
  exact Int.lt_irrefl _ hlt

/-- The panel of the last bars of a history, in the order of their times. -/
def lastPanel (symbol : String) (interval : Interval) (history : List (Bar Float)) :
    Panel Float where
  symbol
  interval
  bars := (lastWritten history).mergeSort byTime
  increasing := increasing_sorted (pairwise_lastWritten history)

theorem mem_lastPanel {symbol : String} {interval : Interval} {history : List (Bar Float)}
    {b : Bar Float} : b ∈ (lastPanel symbol interval history).bars ↔ IsLast b history := by
  rw [← mem_lastWritten]
  exact (perm_sorted _).mem_iff

/-- The panel of the bars that a table keeps of a history. -/
def kept (symbol : String) (interval : Interval) (history : List (Bar Float)) : Panel Float :=
  lastPanel symbol interval (history.map Bar.stored)

variable {symbol : String} {interval : Interval} {history : List (Bar Float)}

/-- A table keeps the panel of the last bars when it keeps each of them as it is. -/
theorem kept_eq_lastPanel_iff : kept symbol interval history = lastPanel symbol interval history ↔
    ∀ b, IsLast b history → b.stored = b := by
  constructor
  · intro h b hb
    have hkept : b ∈ (kept symbol interval history).bars := h ▸ mem_lastPanel.mpr hb
    obtain ⟨c, -, rfl⟩ := List.mem_map.mp (mem_of_mem_lastWritten
      (mem_lastWritten.mpr (mem_lastPanel.mp hkept)))
    exact c.stored_stored
  · intro h
    simp only [kept, lastPanel, lastWritten_map_stored_eq h]

/-! ## The rows of an answer -/

/-- What is kept of a bar in a year of four digits. -/
structure Plain (b : Bar Float) : Prop where
  stored : b.stored = b
  year : b.timestamp.HasPlainYear

theorem plain_of_mem (hplain : ∀ b ∈ history, b.timestamp.HasPlainYear) {b : Bar Float}
    (hb : b ∈ lastWritten (history.map Bar.stored)) : Plain b := by
  obtain ⟨c, hc, rfl⟩ := List.mem_map.mp (mem_of_mem_lastWritten hb)
  exact ⟨c.stored_stored, hplain c hc⟩

theorem Plain.toSecond {b : Bar Float} (h : Plain b) : b.timestamp.toSecond = b.timestamp :=
  congrArg Bar.timestamp h.stored

theorem Plain.le_columnText_iff {b : Bar Float} {t : Timestamp} (h : Plain b)
    (ht : t.HasPlainYear) : t.columnText ≤ b.timestamp.columnText ↔ t.toSecond ≤ b.timestamp := by
  rw [Timestamp.columnText_le_iff ht h.year, h.toSecond]

theorem Plain.columnText_le_iff {b : Bar Float} {t : Timestamp} (h : Plain b)
    (ht : t.HasPlainYear) : b.timestamp.columnText ≤ t.columnText ↔ b.timestamp ≤ t := by
  rw [Timestamp.columnText_le_iff h.year ht, h.toSecond, Timestamp.le_toSecond_iff h.toSecond]

variable {start finish : Option Timestamp}

section Rows

variable {rows : List BarRow} (hplain : ∀ b ∈ history, b.timestamp.HasPlainYear)
  (hrows : series symbol interval rows = history.foldl (addBar symbol interval) [])
  (hstart : ∀ t ∈ start, t.HasPlainYear) (hfinish : ∀ t ∈ finish, t.HasPlainYear)

include hstart hfinish

/-- A row is asked for when its bar is in range, from the beginning of the first second on. -/
theorem answers_of {b : Bar Float} (hb : Plain b) :
    (BarRow.of symbol interval b).answers ⟨symbol, interval, start, finish⟩ =
      b.timestamp.inRange (start.map Timestamp.toSecond) finish := by
  -- bounds are compared as texts in the query and as times in a panel
  have hfirst : start.all (fun t => decide (t.columnText ≤ b.timestamp.columnText)) =
      (start.map Timestamp.toSecond).all fun t => decide (t ≤ b.timestamp) := by
    cases start with
    | none => simp only [Option.map_none, Option.all_none]
    | some t => simp only [Option.map_some, Option.all_some, hb.le_columnText_iff (hstart t rfl)]
  have hlast : finish.all (fun t => decide (b.timestamp.columnText ≤ t.columnText)) =
      finish.all fun t => decide (b.timestamp ≤ t) := by
    cases finish with
    | none => simp only [Option.all_none]
    | some t => simp only [Option.all_some, hb.columnText_le_iff (hfinish t rfl)]
  unfold BarRow.answers Timestamp.inRange BarRow.of
  simp only [beq_self_eq_true, Bool.true_and, hfirst, hlast]

include hplain hrows

/-- The rows of an answer are those of the kept bars in range. -/
theorem filter_answers : rows.filter (·.answers ⟨symbol, interval, start, finish⟩) =
    ((lastWritten (history.map Bar.stored)).filter fun b =>
      b.timestamp.inRange (start.map Timestamp.toSecond) finish).map
        (BarRow.of symbol interval) := by
  -- rows of other series are not asked for
  have hseries : (series symbol interval rows).filter
      (·.answers ⟨symbol, interval, start, finish⟩) =
        rows.filter (·.answers ⟨symbol, interval, start, finish⟩) := by
    rw [series, List.filter_filter]
    refine List.filter_congr fun r _ => ?_
    unfold BarRow.answers
    cases r.symbol == symbol && r.interval == interval.text
    · simp only [Bool.false_and]
    · simp only [Bool.true_and, Bool.and_true]
  rw [← hseries, hrows, foldl_addBar hplain, List.filter_map]
  congr 1
  exact List.filter_congr fun b hb => answers_of hstart hfinish (plain_of_mem hplain hb)

/-- The rows of an answer, sorted by their texts, are in the order of the times. -/
theorem sorted_answers :
    (rows.filter (·.answers ⟨symbol, interval, start, finish⟩)).mergeSort byText =
      ((kept symbol interval history).between (start.map Timestamp.toSecond) finish).bars.map
        (BarRow.of symbol interval) := by
  have hcompare : ∀ a ∈ lastWritten (history.map Bar.stored),
      ∀ b ∈ lastWritten (history.map Bar.stored),
        byTime a b = byText (BarRow.of symbol interval a) (BarRow.of symbol interval b) := by
    intro a ha b hb
    have htext := (plain_of_mem hplain ha).columnText_le_iff (plain_of_mem hplain hb).year
    simp only [byTime, byText, BarRow.of, htext]
  rw [filter_answers hplain hrows hstart hfinish, ← List.map_mergeSort fun a ha b hb =>
    hcompare a (List.mem_of_mem_filter ha) b (List.mem_of_mem_filter hb), sorted_filter]
  · rfl
  · exact pairwise_lastWritten _

end Rows

/-- Every bar that is kept is read back from its row. -/
theorem mapM_bar_between (hplain : ∀ b ∈ history, b.timestamp.HasPlainYear)
    (start finish : Option Timestamp) :
    (((kept symbol interval history).between start finish).bars.map
        (BarRow.of symbol interval)).mapM BarRow.bar =
      .ok ((kept symbol interval history).between start finish).bars := by
  have hbar : ∀ b ∈ ((kept symbol interval history).between start finish).bars,
      (BarRow.bar ∘ BarRow.of symbol interval) b = .ok (id b) := by
    intro b hb
    have hb := plain_of_mem hplain ((perm_sorted _).mem_iff.mp (List.mem_of_mem_filter hb))
    rw [Function.comp_apply, BarRow.bar_of hb.year, hb.stored, id]
  rw [List.mapM_map, mapM_eq_ok hbar, List.map_id]

/-- A table with the rows of a history answers from the panel that is kept of it. -/
theorem fetch_of_series {db : Database} {rows : List BarRow} (hdb : db.bars = some rows)
    (hrows : series symbol interval rows = history.foldl (addBar symbol interval) [])
    (hplain : ∀ b ∈ history, b.timestamp.HasPlainYear)
    (hstart : ∀ t ∈ start, t.HasPlainYear) (hfinish : ∀ t ∈ finish, t.HasPlainYear) :
    db.fetch ⟨symbol, interval, start, finish⟩ =
      (kept symbol interval history).answer (start.map Timestamp.toSecond) finish := by
  rw [fetch, hdb]
  show Except.bind (List.mapM BarRow.bar (List.mergeSort _ byText)) _ = _
  rw [sorted_answers hplain hrows hstart hfinish, mapM_bar_between hplain]
  exact Query.panelOf_between (kept symbol interval history) _ rfl rfl _ _

/-- **Bars come back from a database** as from the panel of those that were kept: of the last bar in
each second, and from the beginning of the first second on. For bounds at whole seconds this is the
answer of a source that holds the bars last written, if and only if the table keeps each of these
bars as it is.

Times are stored and compared as texts that are cut to the second. The texts are in the order of the
times while years have four digits and no sign, which is why all times here have plain years. -/
theorem fetch_of_insertPanels {db : Database} {panels : List (Panel Float)}
    (h : empty.initialized.insertPanels panels = .ok db)
    (hplain : ∀ b ∈ written panels symbol interval, b.timestamp.HasPlainYear) :
    (∀ b, b ∈ (kept symbol interval (written panels symbol interval)).bars ↔
      IsLast b ((written panels symbol interval).map Bar.stored)) ∧
    (∀ start finish : Option Timestamp, (∀ t ∈ start, t.HasPlainYear) →
      (∀ t ∈ finish, t.HasPlainYear) →
        db.fetch ⟨symbol, interval, start, finish⟩ =
          (kept symbol interval (written panels symbol interval)).answer
            (start.map Timestamp.toSecond) finish) ∧
    ((∀ start finish : Option Timestamp, (∀ t ∈ start, t.HasPlainYear) →
      (∀ t ∈ finish, t.HasPlainYear) → (∀ t ∈ start, t.toSecond = t) →
        db.fetch ⟨symbol, interval, start, finish⟩ =
          Query.answer ⟨symbol, interval, start, finish⟩
            [lastPanel symbol interval (written panels symbol interval)]) ↔
      ∀ b, IsLast b (written panels symbol interval) → b.stored = b) := by
  obtain ⟨rows, hdb, hrows⟩ := series_of_insertPanels panels rfl h
  have hfetch : ∀ start finish : Option Timestamp, (∀ t ∈ start, t.HasPlainYear) →
      (∀ t ∈ finish, t.HasPlainYear) → db.fetch ⟨symbol, interval, start, finish⟩ =
        (kept symbol interval (written panels symbol interval)).answer
          (start.map Timestamp.toSecond) finish :=
    fun start finish hstart hfinish =>
      fetch_of_series hdb (hrows symbol interval) hplain hstart hfinish
  refine ⟨fun b => mem_lastPanel, hfetch, ?_⟩
  rw [← @kept_eq_lastPanel_iff symbol interval]
  constructor
  · -- the answer without bounds is the whole panel
    intro hsame
    have hnone : ∀ t ∈ (none : Option Timestamp), t.HasPlainYear := fun t ht => by cases ht
    have hall := hsame none none hnone hnone fun t ht => by cases ht
    rw [hfetch none none hnone hnone] at hall
    exact Panel.eq_of_answer_eq rfl rfl (hall.trans (Query.answer_singleton (lastPanel _ _ _) _ _))
  · intro hkept start finish hstart hfinish hwhole
    have hcut : start.map Timestamp.toSecond = start := by
      cases start with
      | none => rfl
      | some t => rw [Option.map_some, hwhole t rfl]
    rw [hfetch start finish hstart hfinish, hcut, hkept]
    exact (Query.answer_singleton (lastPanel _ _ _) start finish).symm

/-- A moment in the second after half past nine. -/
def morning (nano : Fin 1000000000) : Timestamp where
  date := ⟨2022, 7, 5, by decide, by decide, by decide⟩
  second := 34200
  nano := nano
  second_lt := by decide
  nano_lt := by omega
  leap h := by omega

/-- Two bars in one second. -/
def halfSecond : Panel Float where
  symbol := "TEST"
  interval := .daily
  bars := [⟨morning 0, 1, 1, 1, 1, 1⟩, ⟨morning 500000000, 2, 2, 2, 2, 2⟩]
  increasing := @increasing_of_disorder?_eq_none _ _ 0 (by decide)

theorem fetch_of_insertPanels_halfSecond :
    ∃ db, empty.initialized.insertPanels [halfSecond] = .ok db ∧
      (∀ b ∈ written [halfSecond] "TEST" .daily, b.timestamp.HasPlainYear) ∧
      ∃ panel, db.fetch ⟨"TEST", .daily, none, none⟩ = .ok panel ∧
        panel.bars = [⟨morning 0, 2, 2, 2, 2, 2⟩] := by
  have hdefined : ∀ p ∈ [halfSecond], ∀ b ∈ p.bars, b.IsDefined := by
    intro p hp b hb
    obtain rfl := List.mem_singleton.mp hp
    have hone : (1 : Float).isNaN = false := by decide +kernel
    have htwo : (2 : Float).isNaN = false := by decide +kernel
    simp only [halfSecond, List.mem_cons, List.not_mem_nil, or_false] at hb
    rcases hb with rfl | rfl
    · intro column
      cases column <;> exact hone
    · intro column
      cases column <;> exact htwo
  have hwritten : written [halfSecond] "TEST" .daily = halfSecond.bars := by
    rw [written_singleton, if_pos ⟨rfl, rfl⟩]
  have hplain : ∀ b ∈ written [halfSecond] "TEST" .daily, b.timestamp.HasPlainYear := by
    intro b hb
    rw [hwritten] at hb
    simp only [halfSecond, List.mem_cons, List.not_mem_nil, or_false] at hb
    rcases hb with rfl | rfl
    · exact ⟨by decide, by decide⟩
    · exact ⟨by decide, by decide⟩
  -- both bars are stored under the same second, so the later one replaces the earlier
  have hlast : lastWritten (halfSecond.bars.map Bar.stored) = [⟨morning 0, 2, 2, 2, 2, 2⟩] := rfl
  have hkept : (kept "TEST" .daily (written [halfSecond] "TEST" .daily)).bars =
      [⟨morning 0, 2, 2, 2, 2, 2⟩] := by
    show (lastWritten ((written [halfSecond] "TEST" .daily).map Bar.stored)).mergeSort byTime = _
    rw [hwritten, hlast, List.mergeSort_singleton]
  have hanswer : (kept "TEST" .daily (written [halfSecond] "TEST" .daily)).answer none none =
      .ok (kept "TEST" .daily (written [halfSecond] "TEST" .daily)) := by
    rw [Panel.answer, Panel.between_none, hkept]
    rfl
  have hnone : ∀ t ∈ (none : Option Timestamp), t.HasPlainYear := fun t ht => by cases ht
  obtain ⟨db, hdb, -⟩ :=
    exists_insertPanels hdefined (rfl : empty.initialized.bars.isSome = true)
  have hfetch := (fetch_of_insertPanels hdb hplain).2.1 none none hnone hnone
  exact ⟨db, hdb, hplain, _, hfetch.trans hanswer, hkept⟩

end Database

end FactorStudy
