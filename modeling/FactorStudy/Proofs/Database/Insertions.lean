import FactorStudy.Proofs.Database.Range

/-!
# Panels inserted one after the other

A panel with an undefined number is refused as a whole: the database stays as it was before the
first of its bars. So after any number of attempts a table holds what the panels without undefined
numbers have left in it. At whole seconds that is, for each symbol and bar length, one bar for each
time that was ever inserted, with the values inserted last (`fetch_of_insertEach`).
-/

namespace FactorStudy

/-- Whether every number of a panel is defined. -/
def Panel.isDefined (p : Panel Float) : Bool :=
  p.bars.all fun b => Column.all.all fun column => !(b.get column).isNaN

theorem Panel.isDefined_iff {p : Panel Float} :
    p.isDefined = true ↔ ∀ b ∈ p.bars, b.IsDefined := by
  have hcolumns : ∀ b : Bar Float,
      (Column.all.all fun column => !(b.get column).isNaN) = true ↔ b.IsDefined := by
    intro b
    simp only [List.all_eq_true, Bool.not_eq_true']
    refine ⟨fun h column => h column ?_, fun h column _ => h column⟩
    cases column <;> decide
  simp only [isDefined, List.all_eq_true, hcolumns]

namespace Database

/-! ## One attempt -/

/-- The answer to an attempt to insert a panel, and the database after it. -/
def attempt (db : Database) (p : Panel Float) : Outcome Unit × Database :=
  match db.insertPanel p with
  | .ok after => (.ok (), after)
  | .error fault => (.error fault, db)

/-- A number that a column takes is defined. -/
theorem isNaN_of_column {table name : String} {x y : Float} (h : column table name x = .ok y) :
    x.isNaN = false := by
  unfold column at h
  by_cases hx : x.isNaN = true
  · rw [if_pos hx] at h
    cases h
  · exact Bool.eq_false_iff.mpr hx

theorem isDefined_of_ofBar {symbol : String} {interval : Interval} {b : Bar Float} {row : BarRow}
    (h : BarRow.ofBar symbol interval b = .ok row) : b.IsDefined := by
  obtain ⟨_, hopen, h⟩ := exists_of_bind_eq_ok h
  obtain ⟨_, hhigh, h⟩ := exists_of_bind_eq_ok h
  obtain ⟨_, hlow, h⟩ := exists_of_bind_eq_ok h
  obtain ⟨_, hclose, h⟩ := exists_of_bind_eq_ok h
  obtain ⟨_, hvolume, -⟩ := exists_of_bind_eq_ok h
  intro column
  cases column with
  | «open» => exact isNaN_of_column hopen
  | high => exact isNaN_of_column hhigh
  | low => exact isNaN_of_column hlow
  | close => exact isNaN_of_column hclose
  | volume => exact isNaN_of_column hvolume

/-- Bars that were inserted, to the last of them, have no undefined number. -/
theorem isDefined_of_insertBars {symbol : String} {interval : Interval} (bars : List (Bar Float)) :
    ∀ {db after : Database}, bars.foldlM (insertBar symbol interval) db = .ok after →
      ∀ b ∈ bars, b.IsDefined := by
  induction bars with
  | nil =>
    intro db after _ b hb
    cases hb
  | cons b bars ih =>
    intro db after h
    rw [List.foldlM_cons] at h
    obtain ⟨next, hnext, h⟩ := exists_of_bind_eq_ok h
    obtain ⟨_, -, hnext⟩ := exists_of_bind_eq_ok hnext
    obtain ⟨row, hrow, -⟩ := exists_of_bind_eq_ok hnext
    intro c hc
    -- a row is made of each bar before it is written
    rcases List.mem_cons.mp hc with rfl | hc
    · exact isDefined_of_ofBar hrow
    · exact ih h c hc

theorem isDefined_of_insertPanel {db after : Database} {p : Panel Float}
    (h : db.insertPanel p = .ok after) : p.isDefined = true :=
  Panel.isDefined_iff.mpr (isDefined_of_insertBars p.bars h)

/-- A panel without undefined numbers is inserted. -/
theorem attempt_of_isDefined {db : Database} {p : Panel Float} (hdb : db.bars.isSome)
    (hp : p.isDefined = true) :
    ∃ after, db.insertPanel p = .ok after ∧ db.attempt p = (.ok (), after) ∧
      after.bars.isSome := by
  have hone : ∀ q ∈ [p], ∀ b ∈ q.bars, b.IsDefined := by
    intro q hq
    rw [List.mem_singleton.mp hq]
    exact Panel.isDefined_iff.mp hp
  obtain ⟨after, hafter, hbars⟩ := exists_insertPanels hone hdb
  -- one panel inserted is a list of one
  have hinsert : db.insertPanel p = .ok after := by
    rw [insertPanels, List.foldlM_cons] at hafter
    obtain ⟨next, hnext, hlast⟩ := exists_of_bind_eq_ok hafter
    cases hlast
    exact hnext
  refine ⟨after, hinsert, ?_, hbars⟩
  rw [attempt, hinsert]

/-- Any other panel is refused, and the database stays as it was. -/
theorem attempt_of_not_isDefined (db : Database) {p : Panel Float} (hp : p.isDefined = false) :
    ∃ fault, db.attempt p = (.error fault, db) := by
  cases h : db.insertPanel p with
  | error fault => exact ⟨fault, by rw [attempt, h]⟩
  | ok after =>
    rw [isDefined_of_insertPanel h] at hp
    cases hp

/-! ## All attempts -/

/-- The answers to attempts to insert panels, one after the other, and the database in the end. -/
def insertEach (db : Database) : List (Panel Float) → List (Outcome Unit) × Database
  | [] => ([], db)
  | p :: panels =>
    let (answer, next) := db.attempt p
    let (answers, last) := insertEach next panels
    (answer :: answers, last)

/-- The panels that are not refused. -/
def accepted (panels : List (Panel Float)) : List (Panel Float) := panels.filter Panel.isDefined

/-- Refused panels are as if they had never been tried. -/
theorem insertEach_spec (panels : List (Panel Float)) :
    ∀ {db : Database}, db.bars.isSome →
      (db.insertEach panels).1.map Except.isOk = panels.map Panel.isDefined ∧
        db.insertPanels (accepted panels) = .ok (db.insertEach panels).2 := by
  induction panels with
  | nil =>
    intro db _
    exact ⟨rfl, rfl⟩
  | cons p panels ih =>
    intro db hdb
    cases hp : p.isDefined with
    -- a panel that is accepted is inserted by both, and the rest goes on from there
    | true =>
      obtain ⟨after, hinsert, hattempt, hafter⟩ := attempt_of_isDefined hdb hp
      obtain ⟨hanswers, hlast⟩ := ih hafter
      simp only [insertEach, hattempt, List.map_cons, hp, hanswers, accepted, List.filter_cons,
        if_true, insertPanels, List.foldlM_cons, hinsert]
      exact ⟨rfl, hlast⟩
    -- a refused one leaves the database as it is, and is not among the accepted
    | false =>
      obtain ⟨fault, hattempt⟩ := db.attempt_of_not_isDefined hp
      obtain ⟨hanswers, hlast⟩ := ih hdb
      simp only [insertEach, hattempt, List.map_cons, hp, hanswers, accepted, List.filter_cons,
        Bool.false_eq_true, if_false]
      exact ⟨rfl, hlast⟩

/-! ## What was inserted last -/

/-- A bar is the one that was inserted last for its time, in a list of panels: no later panel of the
symbol and bar length has a bar of that time. -/
def LastInserted (panels : List (Panel Float)) (symbol : String) (interval : Interval)
    (b : Bar Float) : Prop :=
  ∃ before p after, panels = before ++ p :: after ∧ (p.symbol = symbol ∧ p.interval = interval) ∧
    b ∈ p.bars ∧ ∀ q ∈ after, q.symbol = symbol ∧ q.interval = interval →
      ∀ c ∈ q.bars, c.timestamp ≠ b.timestamp

variable {panels : List (Panel Float)} {symbol : String} {interval : Interval}

theorem mem_written {b : Bar Float} : b ∈ written panels symbol interval ↔
    ∃ p ∈ panels, (p.symbol = symbol ∧ p.interval = interval) ∧ b ∈ p.bars := by
  simp only [written, List.mem_flatMap, List.mem_filter, Bool.and_eq_true, beq_iff_eq, and_assoc]

theorem written_append (earlier later : List (Panel Float)) (symbol : String)
    (interval : Interval) : written (earlier ++ later) symbol interval =
      written earlier symbol interval ++ written later symbol interval := by
  rw [written, List.filter_append, List.flatMap_append]
  rfl

/-- A bar that comes last in what is written for a series comes last in its panel, which has no
second bar of that time, and in no later panel. -/
theorem lastInserted_of_isLast {b : Bar Float} (h : IsLast b (written panels symbol interval)) :
    LastInserted panels symbol interval b := by
  induction panels with
  | nil =>
    obtain ⟨before, after, hsplit, -⟩ := h
    exact absurd hsplit.symm (List.append_ne_nil_of_right_ne_nil _ (List.cons_ne_nil _ _))
  | cons p panels ih =>
    rw [← List.singleton_append, written_append, written_singleton] at h
    by_cases hlater : ∃ c ∈ written panels symbol interval, c.timestamp = b.timestamp
    · -- the bar stands in one of the panels behind this one
      have hrest : IsLast b (written panels symbol interval) := by
        obtain ⟨before, after, hsplit, hlast⟩ := h
        obtain ⟨c, hc, htime⟩ := hlater
        rcases List.append_eq_append_iff.mp hsplit with ⟨mid, rfl, hmid⟩ | ⟨mid, hmid, hafter⟩
        · exact ⟨mid, after, hmid, hlast⟩
        · cases mid with
          | nil => exact ⟨[], after, hafter.symm, hlast⟩
          | cons d mid =>
            obtain ⟨rfl, rfl⟩ := List.cons.inj hafter
            exact absurd htime (hlast c (List.mem_append_right _ hc))
      obtain ⟨before, q, after, rfl, hq⟩ := ih hrest
      exact ⟨p :: before, q, after, rfl, hq⟩
    · -- no panel behind this one has the time, so the bar stands in this one
      have hmem := mem_of_mem_lastWritten (mem_lastWritten.mpr h)
      have hnone : ∀ q ∈ panels, q.symbol = symbol ∧ q.interval = interval →
          ∀ c ∈ q.bars, c.timestamp ≠ b.timestamp := by
        intro q hq hkey c hc htime
        exact hlater ⟨c, mem_written.mpr ⟨q, hq, hkey, hc⟩, htime⟩
      rcases List.mem_append.mp hmem with hb | hb
      · by_cases hkey : p.symbol = symbol ∧ p.interval = interval
        · rw [if_pos hkey] at hb
          exact ⟨[], p, panels, rfl, hkey, hb, hnone⟩
        · rw [if_neg hkey] at hb
          cases hb
      · exact absurd ⟨b, hb, rfl⟩ hlater

/-! ## What is there afterwards -/

/-- A panel holds what panels have left for a symbol and a bar length: a bar for each time that one
of them has, with the values inserted last, where zeros have lost their sign. -/
structure Leaves (panels : List (Panel Float)) (symbol : String) (interval : Interval)
    (left : Panel Float) : Prop where
  symbol_eq : left.symbol = symbol
  interval_eq : left.interval = interval
  increasing : Increasing left.bars
  times : ∀ t, (∃ b ∈ left.bars, b.timestamp = t) ↔
    ∃ p ∈ panels, (p.symbol = symbol ∧ p.interval = interval) ∧ ∃ b ∈ p.bars, b.timestamp = t
  values : ∀ b ∈ left.bars, ∃ c, LastInserted panels symbol interval c ∧
    b.timestamp = c.timestamp ∧ ∀ column, b.get column = keptNumber (c.get column)

theorem get_stored (b : Bar Float) (column : Column) :
    b.stored.get column = keptNumber (b.get column) := by
  cases column <;> rfl

/-- At whole seconds, what is kept of the bars of panels is what they have left. -/
theorem leaves_kept (hwhole : ∀ p ∈ panels, ∀ b ∈ p.bars, b.timestamp.toSecond = b.timestamp) :
    Leaves panels symbol interval (kept symbol interval (written panels symbol interval)) := by
  have hwritten : ∀ b ∈ written panels symbol interval, b.timestamp.toSecond = b.timestamp := by
    intro b hb
    obtain ⟨p, hp, -, hb⟩ := mem_written.mp hb
    exact hwhole p hp b hb
  -- a kept bar is a last one as it is stored
  have hkept : ∀ b, b ∈ (kept symbol interval (written panels symbol interval)).bars ↔
      ∃ c, IsLast c (written panels symbol interval) ∧ c.stored = b := by
    intro b
    rw [kept, mem_lastPanel, ← mem_lastWritten, lastWritten_map_stored hwritten, List.mem_map]
    simp only [mem_lastWritten]
  refine ⟨rfl, rfl, (kept _ _ _).increasing, fun t => ⟨?_, ?_⟩, fun b hb => ?_⟩
  · rintro ⟨b, hb, rfl⟩
    obtain ⟨c, hc, rfl⟩ := (hkept b).mp hb
    have hmem := mem_of_mem_lastWritten (mem_lastWritten.mpr hc)
    obtain ⟨p, hp, hkey, hc⟩ := mem_written.mp hmem
    exact ⟨p, hp, hkey, c, hc, (hwritten c hmem).symm⟩
  · rintro ⟨p, hp, hkey, b, hb, rfl⟩
    obtain ⟨c, hc, htime⟩ := exists_isLast (mem_written.mpr ⟨p, hp, hkey, hb⟩)
    have hmem := mem_of_mem_lastWritten (mem_lastWritten.mpr hc)
    exact ⟨c.stored, (hkept _).mpr ⟨c, hc, rfl⟩, (hwritten c hmem).trans htime⟩
  · obtain ⟨c, hc, rfl⟩ := (hkept b).mp hb
    have hmem := mem_of_mem_lastWritten (mem_lastWritten.mpr hc)
    exact ⟨c, lastInserted_of_isLast hc, hwritten c hmem, get_stored c⟩

/-- **Insertions are all or nothing.** After any attempts to insert panels at whole seconds, those
with an undefined number have failed and changed nothing, and no other has. What is there for a
symbol and a bar length is what the panels that were not refused have left, and there is nothing
when none of them has a bar for it.

The induction is on the attempts: they leave the database that the accepted panels alone would have
left (`insertEach_spec`). -/
theorem fetch_of_insertEach {panels : List (Panel Float)}
    (hplain : ∀ p ∈ panels, ∀ b ∈ p.bars, b.timestamp.HasPlainYear)
    (hwhole : ∀ p ∈ panels, ∀ b ∈ p.bars, b.timestamp.toSecond = b.timestamp) :
    (empty.initialized.insertEach panels).1.map Except.isOk = panels.map Panel.isDefined ∧
    (∀ (db : Database) (p : Panel Float), (db.attempt p).1.isOk = false →
      (db.attempt p).2 = db) ∧
    ∀ symbol interval,
      if ∃ p ∈ accepted panels, (p.symbol = symbol ∧ p.interval = interval) ∧ p.bars ≠ [] then
        ∃ left, (empty.initialized.insertEach panels).2.fetch ⟨symbol, interval, none, none⟩ =
          .ok left ∧ Leaves (accepted panels) symbol interval left
      else
        (empty.initialized.insertEach panels).2.fetch ⟨symbol, interval, none, none⟩ =
          .error (.noData symbol interval) := by
  obtain ⟨hanswers, hinsert⟩ :=
    insertEach_spec panels (rfl : empty.initialized.bars.isSome = true)
  refine ⟨hanswers, fun db p hfailed => ?_, fun symbol interval => ?_⟩
  · cases hp : db.insertPanel p with
    | ok after =>
      rw [attempt, hp] at hfailed
      cases hfailed
    | error fault => rw [attempt, hp]
  · -- the accepted panels are among those that were tried, so years and seconds are as plain
    have hsub : ∀ p ∈ accepted panels, p ∈ panels := fun p hp => List.mem_of_mem_filter hp
    have hyears : ∀ b ∈ written (accepted panels) symbol interval, b.timestamp.HasPlainYear := by
      intro b hb
      obtain ⟨p, hp, -, hb⟩ := mem_written.mp hb
      exact hplain p (hsub p hp) b hb
    have hnone : ∀ t ∈ (none : Option Timestamp), t.HasPlainYear := fun t ht => by cases ht
    obtain ⟨rows, hrows, hseries⟩ := series_of_insertPanels (accepted panels) rfl hinsert
    have hfetch := fetch_of_series hrows (hseries symbol interval) hyears hnone hnone
    have hleaves : Leaves (accepted panels) symbol interval
        (kept symbol interval (written (accepted panels) symbol interval)) :=
      leaves_kept fun p hp => hwhole p (hsub p hp)
    rw [Option.map_none, Panel.answer, Panel.between_none] at hfetch
    split_ifs with hsome
    · -- a panel with a bar leaves one at that time, whichever it is
      refine ⟨_, hfetch.trans (if_neg ?_), hleaves⟩
      obtain ⟨p, hp, hkey, hbars⟩ := hsome
      obtain ⟨b, hb⟩ := List.exists_mem_of_ne_nil _ hbars
      obtain ⟨c, hc, -⟩ := (hleaves.times b.timestamp).mpr ⟨p, hp, hkey, b, hb, rfl⟩
      rw [List.isEmpty_iff]
      exact List.ne_nil_of_mem hc
    · -- a bar that is left came from an accepted panel
      refine hfetch.trans (if_pos ?_)
      rw [List.isEmpty_iff, List.eq_nil_iff_forall_not_mem]
      intro b hb
      obtain ⟨p, hp, hkey, c, hc, -⟩ := (hleaves.times b.timestamp).mp ⟨b, hb, rfl⟩
      exact hsome ⟨p, hp, hkey, List.ne_nil_of_mem hc⟩

/-- A second of the minute after half past nine. -/
def opening (second : Fin 60) : Timestamp :=
  { Timestamp.midnight ⟨2021, 5, 2, by decide, by decide, by decide⟩ with
    second := 34200 + second
    second_lt := by omega
    leap := fun h => absurd h (by decide) }

/-- A panel of bars that have one number in each column. -/
def levelPanel (bars : List (Fin 60 × Float))
    (h : disorder? 0 (bars.map fun (s, x) => (⟨opening s, x, x, x, x, x⟩ : Bar Float)) = none) :
    Panel Float where
  symbol := "TEST"
  interval := .daily
  bars := bars.map fun (s, x) => ⟨opening s, x, x, x, x, x⟩
  increasing := increasing_of_disorder?_eq_none h

/-- Two bars, then a panel that fails at its second bar, then a new value for the second bar. -/
def overlapping : List (Panel Float) :=
  [levelPanel [(0, 1), (1, 2)] (by decide), levelPanel [(1, 3), (2, 0.0 / 0.0)] (by decide),
    levelPanel [(1, -0.0)] (by decide)]

theorem fetch_of_insertEach_overlapping :
    (∀ p ∈ overlapping, ∀ b ∈ p.bars, b.timestamp.HasPlainYear ∧
      b.timestamp.toSecond = b.timestamp) ∧
    (empty.initialized.insertEach overlapping).1.map Except.isOk = [true, false, true] ∧
    ∃ left, (empty.initialized.insertEach overlapping).2.fetch ⟨"TEST", .daily, none, none⟩ =
      .ok left ∧ Leaves (accepted overlapping) "TEST" .daily left := by
  have hyear : 0 ≤ (2021 : ℤ) ∧ (2021 : ℤ) ≤ 9999 := by decide
  have hopening : ∀ s, (opening s).HasPlainYear ∧ (opening s).toSecond = opening s :=
    fun s => ⟨hyear, rfl⟩
  have hwhole : ∀ p ∈ overlapping, ∀ b ∈ p.bars, b.timestamp.HasPlainYear ∧
      b.timestamp.toSecond = b.timestamp := by
    intro p hp b hb
    simp only [overlapping, List.mem_cons, List.not_mem_nil, or_false] at hp
    rcases hp with rfl | rfl | rfl
    all_goals
      obtain ⟨⟨s, x⟩, -, rfl⟩ := List.mem_map.mp hb
      exact hopening s
  -- the second panel has an undefined price
  have hdefined : overlapping.map Panel.isDefined = [true, false, true] := by decide +kernel
  obtain ⟨hanswers, -, hfetch⟩ := fetch_of_insertEach (fun p hp b hb => (hwhole p hp b hb).1)
    (fun p hp b hb => (hwhole p hp b hb).2)
  refine ⟨hwhole, hanswers.trans hdefined, ?_⟩
  have hsome : ∃ p ∈ accepted overlapping,
      (p.symbol = "TEST" ∧ p.interval = .daily) ∧ p.bars ≠ [] := by
    refine ⟨levelPanel [(0, 1), (1, 2)] (by decide), ?_, ⟨rfl, rfl⟩, List.cons_ne_nil _ _⟩
    exact List.mem_filter.mpr ⟨List.mem_cons_self, (List.cons.inj hdefined).1⟩
  exact (if_pos hsome).mp (hfetch "TEST" .daily)

end Database

end FactorStudy
