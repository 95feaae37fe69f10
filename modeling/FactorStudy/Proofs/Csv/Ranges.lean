import FactorStudy.Proofs.Csv.Listing
import FactorStudy.Proofs.Csv.Rows
import FactorStudy.Proofs.Database.Range

/-!
# Ranges of a table

A table that can be read without bounds is a list of bars, one for each row (`Tabulates`). Its panel
does not depend on the order of the rows, and every range is answered from it, since rows are picked
by their times before they are sorted. Where only a range can be read, each bar in it is still that
of one row, and no row is passed over (`fetch_ranges`).
-/

namespace FactorStudy.Csv

open Database (byTime)

/-! ## Rows and bars -/

/-- Where the value of a column stands in a row, behind the time. -/
def place : Column → ℕ
  | .open => 1
  | .high => 2
  | .low => 3
  | .close => 4
  | .volume => 5

/-- The fields of a row, as many as there are columns, say what a bar is. -/
structure Holds (width : ℕ) (fields : List String) (b : Bar Float) : Prop where
  width : fields.length = width
  time : Timestamp.read? (fields.headD "") = some b.timestamp
  values : ∀ c, ∃ text, fields[place c]? = some text ∧
    Decimal.readFloat (Text.trimBlank text.toList) = .ok (b.get c)

variable {q : Query} {width : ℕ} {r : Record} {number : ℕ} {b : Bar Float}

theorem value_eq_ok_iff {k : ℕ} {c : Column} {x : Float} : value r k c = .ok x ↔
    ∃ text, r.fields[k]? = some text ∧ Decimal.readFloat (Text.trimBlank text.toList) = .ok x := by
  unfold value
  cases r.fields[k]? with
  | none => simp
  | some text =>
    simp only [Option.some.injEq, exists_eq_left']
    constructor
    · exact eq_ok_of_mapError_eq_ok
    · intro h
      rw [h]
      rfl

/-- A row of a bar gives the bar where it is in range. -/
theorem bar?_of_holds (h : Holds width r.fields b) :
    bar? q width r number =
      .ok (if b.timestamp.inRange q.start q.finish then some b else none) := by
  have hvalue : ∀ c, value r (place c) c = .ok (b.get c) :=
    fun c => value_eq_ok_iff.mpr (h.values c)
  have hopen : value r 1 .open = .ok b.open := hvalue .open
  have hhigh : value r 2 .high = .ok b.high := hvalue .high
  have hlow : value r 3 .low = .ok b.low := hvalue .low
  have hclose : value r 4 .close = .ok b.close := hvalue .close
  have hvolume : value r 5 .volume = .ok b.volume := hvalue .volume
  unfold bar?
  rw [if_neg (not_not.mpr h.width)]
  simp only [h.time, hopen, hhigh, hlow, hclose, hvolume]
  split
  · rfl
  · rfl

/-- What is known of a row that can be read. -/
theorem holds_of_bar? {o : Option (Bar Float)} (h : bar? q width r number = .ok o) :
    ∃ t, Timestamp.read? (r.fields.headD "") = some t ∧
      (t.inRange q.start q.finish = true → ∃ b, o = some b ∧ Holds width r.fields b) ∧
        (¬ t.inRange q.start q.finish = true → o = none) := by
  unfold bar? at h
  split at h
  · cases h
  · -- the width is checked before the time, and the time before the numbers
    rename_i hwidth
    simp only at h
    split at h
    · cases h
    · rename_i t htime
      split at h
      · -- outside the bounds the numbers are not looked at
        rename_i hrange
        refine ⟨t, htime, fun _ => ?_, fun hout => absurd hrange hout⟩
        obtain ⟨x, hopen, h⟩ := exists_of_bind_eq_ok h
        obtain ⟨y, hhigh, h⟩ := exists_of_bind_eq_ok h
        obtain ⟨z, hlow, h⟩ := exists_of_bind_eq_ok h
        obtain ⟨u, hclose, h⟩ := exists_of_bind_eq_ok h
        obtain ⟨v, hvolume, h⟩ := exists_of_bind_eq_ok h
        refine ⟨_, (Except.ok.inj h).symm, not_not.mp hwidth, htime, fun c => ?_⟩
        cases c with
        | «open» => exact value_eq_ok_iff.mp hopen
        | high => exact value_eq_ok_iff.mp hhigh
        | low => exact value_eq_ok_iff.mp hlow
        | close => exact value_eq_ok_iff.mp hclose
        | volume => exact value_eq_ok_iff.mp hvolume
      · rename_i hrange
        exact ⟨t, htime, fun hin => absurd hin hrange, fun _ => (Except.ok.inj h).symm⟩

/-! ## Tables and bars -/

/-- Every row of a table is that of a bar. -/
def Tabulates (s : String) (bs : List (Bar Float)) : Prop :=
  ∃ header rows, (read s).map (·.fields) = header :: rows ∧
    List.Forall₂ (Holds header.length) rows bs

theorem mapM_bar?_of_holds {rows : List Record} {bs : List (Bar Float)}
    (h : List.Forall₂ (fun r b => Holds width r.fields b) rows bs) (n : ℕ) :
    (rows.zipIdx n).mapM (fun p => bar? q width p.1 p.2) =
      .ok (bs.map fun b => if b.timestamp.inRange q.start q.finish then some b else none) := by
  induction h generalizing n with
  | nil => rfl
  | cons hrow _ ih =>
    rw [List.zipIdx_cons, List.mapM_cons, bar?_of_holds hrow, ih, List.map_cons]
    rfl

/-- A table of bars gives those in range. -/
theorem bars_of_tabulates {s : String} {bs : List (Bar Float)} (h : Tabulates s bs) (q : Query) :
    bars q (read s) = .ok (bs.filter fun b => b.timestamp.inRange q.start q.finish) := by
  obtain ⟨header, rows, hread, hrows⟩ := h
  obtain ⟨first, records, hrecords, rfl, rfl⟩ := List.map_eq_cons_iff.mp hread
  rw [List.forall₂_map_left_iff] at hrows
  have hpicked : (bs.map fun b => if b.timestamp.inRange q.start q.finish then some b else
      none).reduceOption = bs.filter fun b => b.timestamp.inRange q.start q.finish := by
    rw [List.reduceOption, List.filterMap_map, ← List.filterMap_eq_filter]
    rfl
  rw [hrecords, ← hpicked]
  show Except.bind ((records.zipIdx 1).mapM fun p => bar? q first.fields.length p.1 p.2) _ = _
  rw [mapM_bar?_of_holds hrows]
  rfl

/-- What is found for each row of a table that can be read. -/
theorem forall₂_of_bars {header : Record} {rows : List Record} {bs : List (Bar Float)}
    (h : bars q (header :: rows) = .ok bs) : ∃ found : List (Option (Bar Float)),
      bs = found.reduceOption ∧ List.Forall₂ (fun r o => ∃ number,
        bar? q header.fields.length r number = .ok o) rows found := by
  obtain ⟨found, hfound, h⟩ := exists_of_bind_eq_ok h
  refine ⟨found, (Except.ok.inj h).symm, ?_⟩
  have hrows := forall₂_of_mapM_eq_ok hfound
  -- rows are read with their numbers, which matter to the errors only
  have hstrip : ∀ n, List.Forall₂ (fun (p : Record × ℕ) o =>
      bar? q header.fields.length p.1 p.2 = .ok o) (rows.zipIdx n) found →
        List.Forall₂ (fun r o => ∃ number, bar? q header.fields.length r number = .ok o)
          rows found := by
    intro n hpairs
    rw [← List.zipIdx_map_fst n rows, List.forall₂_map_left_iff]
    exact hpairs.imp fun p o hp => ⟨p.2, hp⟩
  exact hstrip 1 hrows

/-! ## Panels of tables -/

variable {symbol : String} {i : Interval} {start finish : Option Timestamp} {file : Path}
  {s : String} {p : Panel Float}

theorem eq_of_panelOf {bs : List (Bar Float)} (h : q.panelOf bs = .ok p) :
    bs ≠ [] ∧ p.symbol = q.symbol ∧ p.interval = q.interval ∧ p.bars = bs := by
  unfold Query.panelOf at h
  split at h
  · cases h
  · rename_i hsome
    have hof := eq_ok_of_mapError_eq_ok h
    unfold Panel.of at hof
    split at hof
    · obtain rfl := Except.ok.inj hof
      exact ⟨fun hnil => hsome (List.isEmpty_iff.mpr hnil), rfl, rfl, rfl⟩
    · cases hof

theorem exists_of_panel (h : panel file s q = .ok p) : ∃ bs, bars q (read s) = .ok bs ∧
    bs ≠ [] ∧ p.symbol = q.symbol ∧ p.interval = q.interval ∧ p.bars = bs.mergeSort byTime := by
  obtain ⟨bs, hbs, h⟩ := exists_of_bind_eq_ok h
  obtain ⟨hsome, hsymbol, hinterval, hbars⟩ := eq_of_panelOf h
  refine ⟨bs, eq_ok_of_mapError_eq_ok hbs, ?_, hsymbol, hinterval, hbars⟩
  rintro rfl
  exact hsome List.mergeSort_nil

/-- A table that gives a panel without bounds is a table of its bars. -/
theorem tabulates_of_panel (h : panel file s ⟨symbol, i, none, none⟩ = .ok p) :
    ∃ bs, Tabulates s bs ∧ p.symbol = symbol ∧ p.interval = i ∧ p.bars = bs.mergeSort byTime := by
  obtain ⟨bs, hbs, hsome, hsymbol, hinterval, hbars⟩ := exists_of_panel h
  refine ⟨bs, ?_, hsymbol, hinterval, hbars⟩
  cases hread : read s with
  | nil =>
    rw [hread] at hbs
    exact absurd (Except.ok.inj hbs).symm hsome
  | cons header rows =>
    rw [hread] at hbs
    obtain ⟨found, rfl, hfound⟩ := forall₂_of_bars hbs
    refine ⟨header.fields, rows.map (·.fields), by rw [hread]; rfl, ?_⟩
    rw [List.forall₂_map_left_iff]
    -- what remains is row by row: without bounds every row that could be read has a bar
    clear hbs hsome hbars hread
    induction hfound with
    | nil => exact .nil
    | cons hrow _ ih =>
      obtain ⟨number, hrow⟩ := hrow
      obtain ⟨t, -, hin, -⟩ := holds_of_bar? hrow
      obtain ⟨b, rfl, hb⟩ := hin rfl
      exact .cons hb ih

/-- Every range is answered from the panel without bounds. -/
theorem panel_of_tabulates {bs : List (Bar Float)} (h : Tabulates s bs)
    (hbars : p.bars = bs.mergeSort byTime) (start finish : Option Timestamp) :
    panel file s ⟨p.symbol, p.interval, start, finish⟩ = p.answer start finish := by
  have hdistinct : bs.Pairwise fun a b => a.timestamp ≠ b.timestamp :=
    Database.distinct_of_increasing_sorted (hbars ▸ p.increasing)
  have hbetween : (p.between start finish).bars =
      (bs.filter fun b => b.timestamp.inRange start finish).mergeSort byTime := by
    rw [Database.sorted_filter hdistinct, ← hbars]
    rfl
  rw [← Query.panelOf_between p ⟨p.symbol, p.interval, start, finish⟩ rfl rfl, hbetween, panel,
    bars_of_tabulates h]
  rfl

/-- A reordered table is a table of the same bars. -/
theorem Tabulates.of_sameRows {s' : String} {bs : List (Bar Float)} (h : Tabulates s bs)
    (hrows : SameRows s s') : ∃ bs', Tabulates s' bs' ∧ bs.Perm bs' := by
  obtain ⟨header, rows, hread, hholds⟩ := h
  obtain ⟨header', rows₁, rows', hread₁, hread', hperm⟩ := hrows
  rw [hread] at hread₁
  obtain ⟨rfl, rfl⟩ := List.cons.inj hread₁
  obtain ⟨bs', hholds', hbs⟩ := List.perm_comp_forall₂ hperm.symm hholds
  exact ⟨bs', ⟨header, rows', hread', hholds'⟩, hbs.symm⟩

theorem panel_of_sameRows {s' : String} {bs : List (Bar Float)} (h : Tabulates s bs)
    (hbars : p.bars = bs.mergeSort byTime) (hrows : SameRows s s')
    (start finish : Option Timestamp) : panel file s' ⟨p.symbol, p.interval, start, finish⟩ =
      p.answer start finish := by
  obtain ⟨bs', hbs', hperm⟩ := h.of_sameRows hrows
  have hdistinct : bs.Pairwise fun a b => a.timestamp ≠ b.timestamp :=
    Database.distinct_of_increasing_sorted (hbars ▸ p.increasing)
  exact panel_of_tabulates hbs' (hbars.trans (Database.sorted_of_perm hdistinct hperm)) start finish

/-! ## The bars of a range -/

/-- The bars of a panel are those of the rows of a table in a range. -/
structure Draws (width : ℕ) (rows : List Record) (start finish : Option Timestamp)
    (p : Panel Float) : Prop where
  /-- A bar lies in the range and is that of a row; no other row has its time. -/
  source : ∀ b ∈ p.bars, b.timestamp.inRange start finish = true ∧
    ∃ (k : ℕ) (r : Record), rows[k]? = some r ∧ Holds width r.fields b ∧
      ∀ (k' : ℕ) (r' : Record), rows[k']? = some r' →
        Timestamp.read? (r'.fields.headD "") = some b.timestamp → k' = k
  /-- Every row has a time, and in the range its bar is there. -/
  complete : ∀ r ∈ rows, ∃ t, Timestamp.read? (r.fields.headD "") = some t ∧
    (t.inRange start finish = true → ∃ b ∈ p.bars, Holds width r.fields b)

theorem exists_getElem?_of_forall₂ {α β : Type} {R : α → β → Prop} {xs : List α} {ys : List β}
    (h : List.Forall₂ R xs ys) {k : ℕ} {x : α} (hx : xs[k]? = some x) :
    ∃ y, ys[k]? = some y ∧ R x y := by
  induction h generalizing k with
  | nil => cases hx
  | cons hxy _ ih =>
    cases k with
    | zero =>
      obtain rfl := Option.some.inj hx
      exact ⟨_, rfl, hxy⟩
    | succ k => exact ih hx

/-- What is found twice has the same place, if times differ. -/
theorem eq_of_found {found : List (Option (Bar Float))}
    (h : found.reduceOption.Pairwise fun a b => a.timestamp ≠ b.timestamp) {k k' : ℕ}
    {b b' : Bar Float} (hb : found[k]? = some (some b)) (hb' : found[k']? = some (some b'))
    (htime : b'.timestamp = b.timestamp) : k' = k := by
  rw [List.reduceOption, List.pairwise_filterMap, List.pairwise_iff_getElem] at h
  obtain ⟨hk, hb⟩ := List.getElem?_eq_some_iff.mp hb
  obtain ⟨hk', hb'⟩ := List.getElem?_eq_some_iff.mp hb'
  rcases lt_trichotomy k' k with hlt | heq | hlt
  · exact absurd htime (h k' k hk' hk hlt b' (by rw [hb']; rfl) b (by rw [hb]; rfl))
  · exact heq
  · exact absurd htime.symm (h k k' hk hk' hlt b (by rw [hb]; rfl) b' (by rw [hb']; rfl))

theorem draws_of_panel (h : panel file s q = .ok p) : ∃ header rows, read s = header :: rows ∧
    Draws header.fields.length rows q.start q.finish p := by
  obtain ⟨bs, hbs, hsome, -, -, hbars⟩ := exists_of_panel h
  cases hread : read s with
  | nil =>
    rw [hread] at hbs
    exact absurd (Except.ok.inj hbs).symm hsome
  | cons header rows =>
    rw [hread] at hbs
    obtain ⟨found, rfl, hfound⟩ := forall₂_of_bars hbs
    have hdistinct := Database.distinct_of_increasing_sorted (hbars ▸ p.increasing)
    have hmem : ∀ b, b ∈ p.bars ↔ some b ∈ found := by
      intro b
      rw [hbars, List.mem_mergeSort, List.reduceOption_mem_iff]
    refine ⟨header, rows, rfl, fun b hb => ?_, fun r hr => ?_⟩
    · obtain ⟨k, hk⟩ := List.mem_iff_getElem?.mp ((hmem b).mp hb)
      obtain ⟨r, hr, number, hbar⟩ := exists_getElem?_of_forall₂ hfound.flip hk
      obtain ⟨t, htime, hin, hout⟩ := holds_of_bar? hbar
      have hrange : t.inRange q.start q.finish = true := by
        by_contra hrange
        cases hout hrange
      obtain ⟨b', hsame, hholds⟩ := hin hrange
      obtain rfl := Option.some.inj hsame
      obtain rfl := Option.some.inj (htime.symm.trans hholds.time)
      refine ⟨hrange, k, r, hr, hholds, fun k' r' hr' htime' => ?_⟩
      -- a row with that time is in range too, so it has a bar, and no two bars have one time
      obtain ⟨o, ho, number', hbar'⟩ := exists_getElem?_of_forall₂ hfound hr'
      obtain ⟨t', htime₁, hin', -⟩ := holds_of_bar? hbar'
      obtain rfl := Option.some.inj (htime₁.symm.trans htime')
      obtain ⟨b', rfl, hholds'⟩ := hin' hrange
      exact eq_of_found hdistinct hk ho (Option.some.inj (hholds'.time.symm.trans htime'))
    · obtain ⟨k, hk⟩ := List.mem_iff_getElem?.mp hr
      obtain ⟨o, ho, number, hbar⟩ := exists_getElem?_of_forall₂ hfound hk
      obtain ⟨t, htime, hin, -⟩ := holds_of_bar? hbar
      refine ⟨t, htime, fun hrange => ?_⟩
      obtain ⟨b, rfl, hholds⟩ := hin hrange
      exact ⟨b, (hmem b).mpr (List.mem_of_getElem? ho), hholds⟩

/-! ## The files of panels -/

variable {t : FileTree} {folder : Path}

theorem fetch_of_read (h : t.read (panelPath folder symbol i) = .ok s) :
    fetch t folder ⟨symbol, i, start, finish⟩ =
      panel (panelPath folder symbol i) s ⟨symbol, i, start, finish⟩ := by
  obtain ⟨node, hnode, hcontent⟩ := exists_of_bind_eq_ok h
  have hfile : t.isFile (panelPath folder symbol i) = true := by
    refine FileTree.isFile_iff.mpr ⟨node, hnode, ?_⟩
    rintro inner rfl
    cases hcontent
  have hfetch : fetch t folder ⟨symbol, i, start, finish⟩ =
      ((t.read (panelPath folder symbol i)).mapError Error.file).bind fun content =>
        panel (panelPath folder symbol i) content ⟨symbol, i, start, finish⟩ := if_pos hfile
  rw [hfetch, h]
  rfl

theorem exists_of_fetch (h : fetch t folder ⟨symbol, i, start, finish⟩ = .ok p) :
    ∃ s, t.read (panelPath folder symbol i) = .ok s ∧
      panel (panelPath folder symbol i) s ⟨symbol, i, start, finish⟩ = .ok p := by
  unfold fetch at h
  dsimp only at h
  split at h
  · obtain ⟨s, hs, h⟩ := exists_of_bind_eq_ok h
    exact ⟨s, eq_ok_of_mapError_eq_ok hs, h⟩
  · cases h

/-- What a panel without bounds says about its file. -/
structure Serves (t : FileTree) (folder : Path) (symbol : String) (i : Interval)
    (p : Panel Float) : Prop where
  about : p.symbol = symbol ∧ p.interval = i
  increasing : Increasing p.bars
  /-- Every range is that of the panel. -/
  answers : ∀ start finish, fetch t folder ⟨symbol, i, start, finish⟩ = p.answer start finish
  /-- A file with the same rows in another order has the same panel. -/
  reordered : ∀ s s' t' folder', t.read (panelPath folder symbol i) = .ok s → SameRows s s' →
    t'.read (panelPath folder' symbol i) = .ok s' →
      fetch t' folder' ⟨symbol, i, none, none⟩ = .ok p
  /-- So has one in which the texts of the rows stand in another order, -/
  rewritten : ∀ s header rows rows' t' folder', t.read (panelPath folder symbol i) = .ok s →
    Lines s header rows → rows.Perm rows' →
      t'.read (panelPath folder' symbol i) = .ok (String.ofList (header ++ rows'.flatten)) →
        fetch t' folder' ⟨symbol, i, none, none⟩ = .ok p
  /-- which can be told apart if no quote is left open. -/
  lines : ∀ s, t.read (panelPath folder symbol i) = .ok s →
    (scan (skipMark s.toList)).mode ≠ .quoted → ∃ header rows, Lines s header rows

theorem serves_of_fetch (h : fetch t folder ⟨symbol, i, none, none⟩ = .ok p) :
    Serves t folder symbol i p := by
  obtain ⟨s, hs, hpanel⟩ := exists_of_fetch h
  obtain ⟨bs, hbs, rfl, rfl, hbars⟩ := tabulates_of_panel hpanel
  have hall : p.answer none none = .ok p := by
    rw [← panel_of_tabulates hbs hbars, hpanel]
  -- the panel is sorted by time, so it does not show in which order its rows were
  have hreordered : ∀ s' t' folder', SameRows s s' →
      t'.read (panelPath folder' p.symbol p.interval) = .ok s' →
        fetch t' folder' ⟨p.symbol, p.interval, none, none⟩ = .ok p := by
    intro s' t' folder' hrows hs'
    rw [fetch_of_read hs', panel_of_sameRows hbs hbars hrows, hall]
  refine ⟨⟨rfl, rfl⟩, p.increasing, fun start finish => ?_, ?_, ?_, ?_⟩
  · rw [fetch_of_read hs, panel_of_tabulates hbs hbars]
  · intro s₁ s' t' folder' hs₁ hrows hs'
    obtain rfl := Except.ok.inj (hs.symm.trans hs₁)
    exact hreordered s' t' folder' hrows hs'
  · intro s₁ header rows rows' t' folder' hs₁ hlines hperm hs'
    obtain rfl := Except.ok.inj (hs.symm.trans hs₁)
    exact hreordered _ t' folder' (SameRows.of_perm hlines hperm) hs'
  · intro s₁ hs₁ hclosed
    obtain rfl := Except.ok.inj (hs.symm.trans hs₁)
    -- a table that gave a panel has a header at least
    refine exists_lines hclosed fun hnil => ?_
    obtain ⟨header, rows, hread, -⟩ := hbs
    rw [hnil] at hread
    cases hread

/-- **Ranges of files.** A panel without bounds is in order, answers every range and does not depend
on the order of the rows. With bounds, the bars are those of the rows in range, one for each.

Rows outside the bounds are not read in full, so a file can have an answer for a range and none
without bounds; for this reason the second statement is about the rows and not about the whole
panel. The order of the rows is taken from the scanner that finds them in the text, quotes and line
breaks included. -/
theorem fetch_ranges (t : FileTree) (folder : Path) (symbol : String) (i : Interval) :
    (∀ p, fetch t folder ⟨symbol, i, none, none⟩ = .ok p → Serves t folder symbol i p) ∧
      ∀ start finish p, fetch t folder ⟨symbol, i, start, finish⟩ = .ok p →
        ∃ s header rows, t.read (panelPath folder symbol i) = .ok s ∧ read s = header :: rows ∧
          Draws header.fields.length rows start finish p := by
  refine ⟨fun p => serves_of_fetch, fun start finish p h => ?_⟩
  obtain ⟨s, hs, hpanel⟩ := exists_of_fetch h
  obtain ⟨header, rows, hread, hdraws⟩ := draws_of_panel hpanel
  exact ⟨s, header, rows, hs, hread, hdraws⟩

/-- A table of the two bars of `Database.halfSecond`, the later one first. -/
def newestFirst : String :=
  "timestamp,open,high,low,close,volume\n" ++ "2022-07-05T09:30:00.5Z,2,2,2,2,2\n" ++
    "2022-07-05 09:30:00,1,1,1,1,1\n"

def newestFirstTree : FileTree := ⟨[("data", .folder [("TEST_1d.csv", .text newestFirst)])], []⟩

theorem tabulates_newestFirst : Tabulates newestFirst Database.halfSecond.bars.reverse := by
  have hread : (read newestFirst).map (·.fields) =
      [["timestamp", "open", "high", "low", "close", "volume"],
        ["2022-07-05T09:30:00.5Z", "2", "2", "2", "2", "2"],
        ["2022-07-05 09:30:00", "1", "1", "1", "1", "1"]] := by
    decide +kernel
  -- a row with one number in all five columns
  have hflat : ∀ {text time : String} {t : Timestamp} {x : Float},
      Timestamp.read? time = some t → Decimal.readFloat (Text.trimBlank text.toList) = .ok x →
        Holds 6 [time, text, text, text, text, text] ⟨t, x, x, x, x, x⟩ := by
    intro text time t x ht hx
    refine ⟨rfl, ht, fun c => ?_⟩
    cases c <;> exact ⟨text, rfl, hx⟩
  have hsecond : Timestamp.read? "2022-07-05T09:30:00.5Z" = some (Database.morning 500000000) := by
    decide +kernel
  have hfirst : Timestamp.read? "2022-07-05 09:30:00" = some (Database.morning 0) := by
    decide +kernel
  exact ⟨_, _, hread, .cons (hflat hsecond (by rfl)) (.cons (hflat hfirst (by rfl)) .nil)⟩

theorem read_newestFirst :
    newestFirstTree.read (panelPath ⟨["data"]⟩ "TEST" .daily) = .ok newestFirst := by
  have hpath : panelPath ⟨["data"]⟩ "TEST" .daily = ⟨["data", "TEST_1d.csv"]⟩ := by decide +kernel
  have hcheck : Path.check ⟨["data", "TEST_1d.csv"]⟩ = .ok () := by
    rw [Path.check, String.contains_char_eq]
    decide
  rw [hpath, FileTree.read, FileTree.node, FileTree.locate, hcheck]
  rfl

theorem fetch_ranges_newestFirst :
    fetch newestFirstTree ⟨["data"]⟩ ⟨"TEST", .daily, none, none⟩ = .ok Database.halfSecond ∧
      Serves newestFirstTree ⟨["data"]⟩ "TEST" .daily Database.halfSecond ∧
        ∃ p header rows, p.bars = [⟨Database.morning 500000000, 2, 2, 2, 2, 2⟩] ∧
          fetch newestFirstTree ⟨["data"]⟩
            ⟨"TEST", .daily, Database.morning 500000000, none⟩ = .ok p ∧
              read newestFirst = header :: rows ∧
                Draws header.fields.length rows (Database.morning 500000000) none p := by
  -- turned around and sorted by time, the bars are as they were
  have hbars : Database.halfSecond.bars = Database.halfSecond.bars.reverse.mergeSort byTime := by
    refine Database.eq_of_perm_of_increasing
      ((List.reverse_perm _).symm.trans (Database.perm_sorted _).symm)
        Database.halfSecond.increasing (Database.increasing_sorted ?_)
    decide
  have hfetch : fetch newestFirstTree ⟨["data"]⟩ ⟨"TEST", .daily, none, none⟩ =
      .ok Database.halfSecond := by
    rw [fetch_of_read read_newestFirst]
    exact panel_of_tabulates tabulates_newestFirst hbars none none
  obtain ⟨hserves, hdraws⟩ := fetch_ranges newestFirstTree ⟨["data"]⟩ "TEST" .daily
  have hsecond : fetch newestFirstTree ⟨["data"]⟩
      ⟨"TEST", .daily, Database.morning 500000000, none⟩ =
        .ok (Database.halfSecond.between (Database.morning 500000000) none) := by
    rw [(hserves _ hfetch).answers]
    rfl
  obtain ⟨s, header, rows, hs, hread, hdraws⟩ := hdraws _ _ _ hsecond
  obtain rfl := Except.ok.inj (hs.symm.trans read_newestFirst)
  exact ⟨hfetch, hserves _ hfetch, _, header, rows, rfl, hsecond, hread, hdraws⟩

end FactorStudy.Csv
