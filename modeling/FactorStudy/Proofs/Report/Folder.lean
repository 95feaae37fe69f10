import FactorStudy.Files.Tree
import FactorStudy.Proofs.Files.Folder
import FactorStudy.Proofs.Files.Path
import FactorStudy.Proofs.Outcome
import FactorStudy.Proofs.Report.ReadBack
import FactorStudy.Proofs.Report.Shelf
import FactorStudy.Report.Folder

/-!
# The folder of reports is a finite map

A folder that is used for reports only holds one file for each report that is kept, and nothing
else (`Holds`): a draft is there during a save, never after it. From that the answer to every call
follows, and every call leaves such a folder behind, whatever the order in which its entries are
listed.

What sets the folder apart from a map is the length of names. A report cannot be saved under an id
whose draft has too long a name, and where the file itself would have too long a name, looking for
the report fails for that reason and not because there is none.
-/

namespace FactorStudy.ReportFolder

open Folder (Distinct Fits)

/-! ## Calls -/

/-- The answer to a call, and the folder afterwards. -/
def answer (es : Folder) : StoreCall → StoreAnswer × Folder
  | .save r => (.saved (save es r).1, (save es r).2)
  | .get id => (.got (get es id), es)
  | .delete id => (.deleted (delete es id).1, (delete es id).2)
  | .list key => (.listed (list es key), es)

/-- A call to a folder whose entries may come in any order. -/
def Step (es : Folder) (c : StoreCall) (a : StoreAnswer) (after : Folder) : Prop :=
  ∃ es', es.Perm es' ∧ answer es' c = (a, after)

/-- Why nothing is done about an id, when that would take a file of the given name. -/
def refusal? (id name : String) : Option Error :=
  if isId id then if name.utf8ByteSize ≤ Path.nameLimit then none else some (.file .nameTooLong)
  else some (.reportNotFound id)

/-- Why a call is refused, whatever there is in the folder. -/
def refuses : StoreCall → Option Error
  | .save r => refusal? r.id (draftName r.id)
  | .get id | .delete id => refusal? id (fileName id)
  | .list _ => none

theorem refusal?_eq_none_iff {id name : String} :
    refusal? id name = none ↔ isId id = true ∧ Fits name := by
  unfold refusal? Fits
  by_cases hid : isId id = true
  · rw [if_pos hid]
    by_cases hfits : name.utf8ByteSize ≤ Path.nameLimit
    · exact iff_of_true (if_pos hfits) ⟨hid, hfits⟩
    · rw [if_neg hfits]
      exact iff_of_false (Option.some_ne_none _) fun h => hfits h.2
  · rw [if_neg hid]
    exact iff_of_false (Option.some_ne_none _) fun h => hid h.1

/-- An id is refused if it is none, or for a name that is too long. -/
theorem refusal?_cases {id name : String} {e : Error} (h : refusal? id name = some e) :
    ¬ isId id = true ∧ e = .reportNotFound id ∨
      isId id = true ∧ ¬ Fits name ∧ e = .file .nameTooLong := by
  unfold refusal? at h
  by_cases hid : isId id = true
  · rw [if_pos hid] at h
    by_cases hfits : name.utf8ByteSize ≤ Path.nameLimit
    · rw [if_pos hfits] at h
      cases h
    · rw [if_neg hfits] at h
      exact Or.inr ⟨hid, hfits, (Option.some.inj h).symm⟩
  · rw [if_neg hid] at h
    exact Or.inl ⟨hid, (Option.some.inj h).symm⟩

/-- A call that is refused touches nothing. -/
theorem answer_of_refuses {c : StoreCall} {e : Error} (h : refuses c = some e) (es : Folder) :
    answer es c = (c.failure e, es) := by
  -- the id is checked first; where it passes, the name is too long and the system refuses
  cases c with
  | list key => cases h
  | save r =>
    have hsave : save es r = (.error e, es) := by
      unfold save
      rcases refusal?_cases h with ⟨hid, rfl⟩ | ⟨hid, hlong, rfl⟩
      · rw [if_neg hid]
      · rw [if_pos hid, Folder.write, Folder.entry_of_not_fits hlong]
        rfl
    simp only [answer, hsave, StoreCall.failure]
  | get id =>
    have hget : get es id = .error e := by
      unfold get
      rcases refusal?_cases h with ⟨hid, rfl⟩ | ⟨hid, hlong, rfl⟩
      · rw [if_neg hid]
      · rw [if_pos hid, Folder.read, Folder.entry_of_not_fits hlong]
        rfl
    simp only [answer, hget, StoreCall.failure]
  | delete id =>
    have hdelete : delete es id = (.error e, es) := by
      unfold delete
      rcases refusal?_cases h with ⟨hid, rfl⟩ | ⟨hid, hlong, rfl⟩
      · rw [if_neg hid]
      · rw [if_pos hid, Folder.remove, Folder.entry_of_not_fits hlong]
        rfl
    simp only [answer, hdelete, StoreCall.failure]

/-! ## Names -/

theorem toList_fileName (id : String) : (fileName id).toList = id.toList ++ ".json".toList :=
  String.toList_append

theorem toList_draftName (id : String) : (draftName id).toList = id.toList ++ ".json.tmp".toList :=
  String.toList_append

/-- Distinct ids have distinct files. -/
theorem fileName_inj {id id' : String} (h : fileName id = fileName id') : id = id' := by
  have h := congrArg String.toList h
  rw [toList_fileName, toList_fileName] at h
  exact String.toList_inj.mp (List.append_cancel_right h)

/-- A draft is told from a report by its last letter. -/
theorem isReportName_draftName (id : String) : isReportName (draftName id) = false := by
  have hsuffix : ".json".toList.isSuffixOf (draftName id).toList = false := by
    rw [toList_draftName, Bool.eq_false_iff, ne_eq, List.isSuffixOf_iff_suffix]
    rintro ⟨s, hs⟩
    have hlast := congrArg List.getLast? hs
    rw [List.getLast?_append_of_ne_nil _ (by decide), List.getLast?_append_of_ne_nil _ (by decide)]
      at hlast
    exact absurd hlast (by decide)
  rw [isReportName, hsuffix, Bool.false_and]

theorem ne_nil_of_isId {id : String} (h : isId id = true) : id.toList ≠ [] := by
  intro hnil
  rw [isId, hnil] at h
  cases h

theorem isReportName_fileName {id : String} (h : isId id = true) :
    isReportName (fileName id) = true := by
  have hsuffix : ".json".toList.isSuffixOf (fileName id).toList = true := by
    rw [toList_fileName, List.isSuffixOf_iff_suffix]
    exact List.suffix_append _ _
  -- a name that is the suffix alone would not do, but an id has a letter
  have hlength : 5 < (fileName id).toList.length := by
    have hpos := List.length_pos_iff.mpr (ne_nil_of_isId h)
    rw [toList_fileName, List.length_append, show ".json".toList.length = 5 from rfl]
    omega
  rw [isReportName, hsuffix, decide_eq_true hlength, Bool.and_self]

theorem draftName_ne_fileName {id id' : String} (h : isId id' = true) :
    draftName id ≠ fileName id' := by
  intro heq
  have hname := isReportName_fileName h
  rw [← heq, isReportName_draftName] at hname
  cases hname

theorem fits_fileName_iff {id : String} : Fits (fileName id) ↔ id.utf8ByteSize ≤ 250 := by
  rw [Fits, fileName, String.utf8ByteSize_append, show ".json".utf8ByteSize = 5 from rfl,
    Path.nameLimit]
  exact Nat.add_le_add_iff_right (n := 5)

theorem fits_draftName_iff {id : String} : Fits (draftName id) ↔ id.utf8ByteSize ≤ 246 := by
  rw [Fits, draftName, String.utf8ByteSize_append, show ".json.tmp".utf8ByteSize = 9 from rfl,
    Path.nameLimit]
  exact Nat.add_le_add_iff_right (n := 9)

theorem fits_fileName {id : String} (h : Fits (draftName id)) : Fits (fileName id) :=
  fits_fileName_iff.mpr (Nat.le_trans (fits_draftName_iff.mp h) (by decide))

/-! ## What the folder holds -/

/-- No letter of an id is one that leads somewhere. -/
theorem ne_of_mem_of_isId {id : String} (h : isId id = true) {c : Char} (hc : c ∈ id.toList) :
    c ≠ '/' ∧ c ≠ '.' := by
  have hletter := List.all_eq_true.mp (Bool.and_eq_true_iff.mp h).2 c hc
  constructor
  · rintro rfl
    cases hletter
  · rintro rfl
    cases hletter

/-- What starts with an id is a name in the folder. -/
theorem isName_append {id suffix : String} (h : isId id = true) (hsuffix : '/' ∉ suffix.toList) :
    Path.IsName (id ++ suffix) := by
  -- the names that mean something else are empty or begin with a point, and no id does
  have hne : ∀ name : String, name.toList.head? = none ∨ name.toList.head? = some '.' →
      id ++ suffix ≠ name := by
    rintro name hname rfl
    rw [String.toList_append] at hname
    cases hid : id.toList with
    | nil => exact ne_nil_of_isId h hid
    | cons c rest =>
      rw [hid] at hname
      rcases hname with hname | hname
      · cases hname
      · exact (ne_of_mem_of_isId h (hid ▸ List.mem_cons_self)).2 (Option.some.inj hname)
  refine ⟨?_, ?_, hne ".." (Or.inr rfl)⟩
  · rw [String.toList_append, List.mem_append]
    rintro (hmem | hmem)
    · exact (ne_of_mem_of_isId h hmem).1 rfl
    · exact hsuffix hmem
  · rw [Path.stays, Bool.or_eq_false_iff, beq_eq_false_iff_ne, beq_eq_false_iff_ne]
    exact ⟨hne "" (Or.inl rfl), hne "." (Or.inr rfl)⟩

/-- The file of a report. -/
def file (r : Report) : String × Node := (fileName r.id, .text r.toJson.pretty)

theorem content_file (r : Report) : Folder.content (some (file r).2) = .ok r.toJson.pretty := rfl

theorem summary?_pretty {r : Report} (h : r.IsStorable) :
    summary? r.toJson.pretty = some r.summary := by
  rw [summary?, Report.read_pretty h]
  rfl

theorem filterMap_summary? {rs : List Report} (h : ∀ r ∈ rs, r.IsStorable) :
    (rs.map fun r => r.toJson.pretty).filterMap summary? = rs.map Report.summary := by
  induction rs with
  | nil => rfl
  | cons r rs ih =>
    obtain ⟨hr, hrs⟩ := List.forall_mem_cons.mp h
    rw [List.map_cons, List.filterMap_cons_some (summary?_pretty hr), ih hrs, List.map_cons]

/-- The report can be kept in a file. -/
structure Fitting (r : Report) : Prop where
  isId : isId r.id = true
  fits : Fits (draftName r.id)
  storable : r.IsStorable

/-- Reports stand in their files. -/
def shelving : Shelving (String × Node) where
  entry := file
  key := (·.1)
  name := fileName
  key_entry _ := rfl
  name_inj := fileName_inj

/-- The folder holds the files of the reports that are kept, and nothing else. -/
abbrev Holds (es : Folder) (m : Shelf) : Prop := shelving.Holds Fitting es m

section Holds

variable {es : Folder} {m : Shelf}

theorem distinct (h : Holds es m) : es.Distinct := h.nodup

theorem lookup_fileName (h : Holds es m) (id : String) :
    es.lookup (fileName id) = (m.lookup id).map fun r => .text r.toJson.pretty := by
  cases hid : m.lookup id with
  | some r =>
    have hmem := h.mem hid
    obtain rfl := (h.kept hid).1
    exact (Folder.lookup_eq_some_iff (distinct h)).mpr hmem
  | none => exact Folder.lookup_eq_none_iff.mpr fun e he => h.key_ne hid he

/-- No draft is left behind. -/
theorem ne_draftName (h : Holds es m) {e : String × Node} (he : e ∈ es) (id : String) :
    e.1 ≠ draftName id := by
  obtain ⟨r, hr, rfl⟩ := (h.mem_iff e).mp he
  exact (draftName_ne_fileName (h.kept hr).2.isId).symm

theorem lookup_ne_folder (h : Holds es m) (name : String) (inner : List (String × Node)) :
    es.lookup name ≠ some (.folder inner) := by
  intro hlookup
  obtain ⟨r, -, hr⟩ := (h.mem_iff _).mp ((Folder.lookup_eq_some_iff (distinct h)).mp hlookup)
  cases congrArg Prod.snd hr

/-! ### A save -/

/-- The draft is written, and takes the place of the file. -/
theorem holds_save (h : Holds es m) {r : Report} (hr : Fitting r) :
    ∃ after, save es r = (.ok r.id, after) ∧ Holds after (m.insert r.id r) := by
  have hdistinct := distinct h
  -- with the draft the folder has one name more, and that is no report's
  let drafted := es.put (draftName r.id) (.text r.toJson.pretty)
  have hdrafted : drafted.Distinct := hdistinct.put _ _
  have hwrite : es.write (draftName r.id) r.toJson.pretty = .ok drafted :=
    Folder.write_eq hr.fits (lookup_ne_folder h _) _
  have hdraft : drafted.lookup (draftName r.id) = some (.text r.toJson.pretty) :=
    (Folder.lookup_eq_some_iff hdrafted).mpr (Folder.mem_put.mpr (Or.inl rfl))
  have hfile : ∀ inner, drafted.lookup (fileName r.id) ≠ some (.folder inner) := by
    intro inner hlookup
    rcases Folder.mem_put.mp ((Folder.lookup_eq_some_iff hdrafted).mp hlookup) with heq | ⟨hmem, -⟩
    · cases congrArg Prod.snd heq
    · exact lookup_ne_folder h _ inner ((Folder.lookup_eq_some_iff hdistinct).mpr hmem)
  have hrename := Folder.rename_eq hr.fits (fits_fileName hr.fits) hdraft hfile
  refine ⟨(drafted.erase (draftName r.id)).put (fileName r.id) (.text r.toJson.pretty), ?_,
    h.save hr ((hdrafted.erase _).put _ _) fun e => ?_⟩
  · unfold save
    rw [if_pos hr.isId, hwrite]
    simp only [hrename, changing]
  · -- the draft goes as it takes the place of the file
    show _ ↔ e = file r ∨ e ∈ es ∧ e.1 ≠ fileName r.id
    rw [Folder.mem_put, Folder.mem_erase, Folder.mem_put]
    constructor
    · rintro (he | ⟨⟨he | ⟨hmem, -⟩, hdraft⟩, hname⟩)
      · exact Or.inl he
      · exact absurd (congrArg Prod.fst he) hdraft
      · exact Or.inr ⟨hmem, hname⟩
    · rintro (he | ⟨hmem, hname⟩)
      · exact Or.inl he
      · exact Or.inr ⟨⟨Or.inr ⟨hmem, ne_draftName h hmem r.id⟩, ne_draftName h hmem r.id⟩, hname⟩

/-! ### The other calls -/

theorem get_eq (h : Holds es m) {id : String} (hid : isId id = true) (hfits : Fits (fileName id)) :
    get es id = (m.lookup id).elim (.error (.reportNotFound id)) .ok := by
  unfold get
  rw [if_pos hid, Folder.read_eq hfits, lookup_fileName h]
  cases hr : m.lookup id with
  | none => rfl
  | some r =>
    have hread := Report.read_pretty (h.kept hr).2.storable
    rw [Option.map_some]
    generalize r.toJson.pretty = text at hread
    exact hread

theorem holds_delete (h : Holds es m) {id : String} (hid : isId id = true)
    (hfits : Fits (fileName id)) : ∃ after,
      delete es id = ((m.lookup id).elim (.error (.reportNotFound id)) fun _ => .ok (), after) ∧
        Holds after (m.erase id) := by
  have hlookup := lookup_fileName h id
  cases hr : m.lookup id with
  | none =>
    rw [hr, Option.map_none] at hlookup
    refine ⟨es, ?_, h.delete_none hr⟩
    unfold delete
    rw [if_pos hid, Folder.remove_of_lookup_eq_none hfits hlookup]
    rfl
  | some r =>
    rw [hr, Option.map_some] at hlookup
    refine ⟨es.erase (fileName id), ?_,
      h.delete ((distinct h).erase _) fun _ => Folder.mem_erase⟩
    unfold delete
    rw [if_pos hid, Folder.remove_eq hfits hlookup]
    rfl

theorem list_eq (h : Holds es m) (key : SortKey) :
    ∃ ss, m.Lists id ss ∧ list es key = .ok (rankSummaries ss key) := by
  obtain ⟨rs, rfl, hids, hrs⟩ := h.exists_reports
  refine ⟨rs.map Report.summary, Shelf.lists_map (fun _ => rfl) hids hrs, ?_⟩
  have hfitting : ∀ r ∈ rs, Fitting r := fun r hr => (h.kept ((hrs r).mp hr)).2
  -- there is nothing but files of reports, so none is passed over
  have hfiles : (rs.map file).filter (fun e => isReportName e.1) = rs.map file := by
    refine List.filter_eq_self.mpr (List.forall_mem_map.mpr fun r hr => ?_)
    exact isReportName_fileName (hfitting r hr).isId
  have hcontents : (rs.map file).mapM (fun e => Folder.content (some e.2)) =
      .ok (rs.map fun r => r.toJson.pretty) := by
    rw [List.mapM_map]
    exact mapM_eq_ok fun r _ => content_file r
  have hsummaries := filterMap_summary? fun r hr => (hfitting r hr).storable
  generalize (rs.map fun r => r.toJson.pretty) = contents at hcontents hsummaries
  have hmap : rs.map shelving.entry = rs.map file := rfl
  rw [list, hmap, hfiles, hcontents, ← hsummaries]
  rfl

end Holds

/-! ## Steps and runs -/

/-- Every call is answered as from the map, or refused. -/
theorem step_refines {es after : Folder} {m : Shelf} {c : StoreCall} {a : StoreAnswer}
    (h : Holds es m) (hc : c.Saves Report.IsStorable) (hstep : Step es c a after) :
    ∃ m', Shelf.Step refuses id m c a m' ∧ Holds after m' := by
  -- the answer is given in another order, in which the folder holds the same
  obtain ⟨es', hperm, hanswer⟩ := hstep
  replace h := h.perm hperm
  cases hrefuse : refuses c with
  | some e =>
    rw [answer_of_refuses hrefuse, Prod.mk.injEq] at hanswer
    obtain ⟨rfl, rfl⟩ := hanswer
    exact ⟨m, .refused hrefuse, h⟩
  | none =>
    refine ⟨m.after c, ?_⟩
    cases c with
    | save r =>
      obtain ⟨hid, hfits⟩ := refusal?_eq_none_iff.mp hrefuse
      obtain ⟨after', hsave, hholds⟩ := holds_save h ⟨hid, hfits, hc⟩
      rw [answer, hsave, Prod.mk.injEq] at hanswer
      obtain ⟨rfl, rfl⟩ := hanswer
      exact ⟨.answered hrefuse rfl, hholds⟩
    | get id =>
      obtain ⟨hid, hfits⟩ := refusal?_eq_none_iff.mp hrefuse
      rw [answer, get_eq h hid hfits, Prod.mk.injEq] at hanswer
      obtain ⟨rfl, rfl⟩ := hanswer
      exact ⟨.answered hrefuse rfl, h⟩
    | delete id =>
      obtain ⟨hid, hfits⟩ := refusal?_eq_none_iff.mp hrefuse
      obtain ⟨after', hdelete, hholds⟩ := holds_delete h hid hfits
      rw [answer, hdelete, Prod.mk.injEq] at hanswer
      obtain ⟨rfl, rfl⟩ := hanswer
      exact ⟨.answered hrefuse rfl, hholds⟩
    | list key =>
      obtain ⟨ss, hss, hlist⟩ := list_eq h key
      rw [answer, hlist, Prod.mk.injEq] at hanswer
      obtain ⟨rfl, rfl⟩ := hanswer
      exact ⟨.answered hrefuse ⟨ss, hss, rfl⟩, h⟩

theorem run_refines {es : Folder} {log : List (StoreCall × StoreAnswer)} (hrun : Run Step [] log es)
    (hlog : ∀ x ∈ log, x.1.Saves Report.IsStorable) :
    ∃ m, Run (Shelf.Step refuses id) ∅ log m ∧ Holds es m := by
  have hstep : ∀ es m c a after, Holds es m → StoreCall.Saves Report.IsStorable c →
      Step es c a after → ∃ m', Shelf.Step refuses id m c a m' ∧ Holds after m' :=
    fun _ _ _ _ _ h hc hs => step_refines h hc hs
  exact hrun.refines hstep Shelving.holds_nil hlog

/-- Calls can be made in any order. -/
theorem exists_run (es : Folder) (calls : List StoreCall) :
    ∃ log after, Run Step es log after ∧ log.map (·.1) = calls :=
  Run.exists_of_total (fun es c => ⟨(answer es c).1, (answer es c).2, es, .refl es, rfl⟩) es calls

/-- **A folder of reports is a map.** A new folder is a finite map from ids to reports, for any
calls in a row: they are all answered, and as from the map unless they are refused, and in the end
there is one file for each report that is kept and no other.

A call that is refused touches nothing, for any folder; a report is not saved under an id of more
than 246 bytes and not looked for under one of more than 250. The files of reports are told apart by
their ids, and from drafts, and none is outside the folder.

One call is one step of the map, as long as the folder holds what the map keeps (`Holds`); a run is
the induction over its calls. -/
theorem run_isShelf (calls : List StoreCall) (h : ∀ c ∈ calls, c.Saves Report.IsStorable) :
    (∃ log es, Run Step [] log es ∧ log.map (·.1) = calls) ∧
      (∀ log es, Run Step [] log es → log.map (·.1) = calls →
        ∃ m, Run (Shelf.Step refuses id) ∅ log m ∧ Holds es m) ∧
      (∀ c e, refuses c = some e → ∀ es, answer es c = (c.failure e, es)) ∧
      (∀ r, refuses (.save r) = none ↔ isId r.id = true ∧ r.id.utf8ByteSize ≤ 246) ∧
      (∀ id, (refuses (.get id) = none ↔ isId id = true ∧ id.utf8ByteSize ≤ 250) ∧
        refuses (.delete id) = refuses (.get id)) ∧
      (∀ id id', isId id = true → isId id' = true →
        (fileName id = fileName id' → id = id') ∧ draftName id ≠ fileName id' ∧
          isReportName (draftName id) = false) ∧
      ∀ id, isId id = true → ∀ name ∈ [fileName id, draftName id],
        ∀ (t : FileTree) (dir : Path) location, t.locate (dir.join (.ofText name)) = .ok location →
          ∃ base, t.walk (t.start dir.base) dir.base.steps = .ok base ∧
            location = base ++ [name] := by
  -- the parts in the order of the statement; the run itself is the simulation
  refine ⟨exists_run [] calls, ?_, fun c e he es => answer_of_refuses he es, ?_, ?_, ?_, ?_⟩
  · intro log es hrun hcalls
    refine run_refines hrun fun x hx => h x.1 ?_
    rw [← hcalls]
    exact List.mem_map_of_mem hx
  · intro r
    exact refusal?_eq_none_iff.trans (and_congr_right fun _ => fits_draftName_iff)
  · intro id
    exact ⟨refusal?_eq_none_iff.trans (and_congr_right fun _ => fits_fileName_iff), rfl⟩
  · intro id id' hid hid'
    exact ⟨fileName_inj, draftName_ne_fileName hid', isReportName_draftName id⟩
  · intro id hid name hname t dir location hlocate
    refine FileTree.locate_join ?_ hlocate
    rcases List.mem_pair.mp hname with rfl | rfl
    · exact isName_append hid (by decide)
    · exact isName_append hid (by decide)

theorem run_isShelf_idle :
    (∀ c ∈ [StoreCall.save (.idle "a-1"), .get "a-1", .delete "a-1"],
      c.Saves Report.IsStorable) ∧
      ∃ log es m, Run Step [] log es ∧
        log.map (·.1) = [StoreCall.save (.idle "a-1"), .get "a-1", .delete "a-1"] ∧
          Run (Shelf.Step refuses id) ∅ log m ∧ Holds es m := by
  have hcalls : ∀ c ∈ [StoreCall.save (.idle "a-1"), .get "a-1", .delete "a-1"],
      c.Saves Report.IsStorable := by
    simp [StoreCall.Saves, Report.isStorable_idle]
  obtain ⟨⟨log, es, hrun, hlog⟩, hshelf, -⟩ := run_isShelf _ hcalls
  obtain ⟨m, hmap, hholds⟩ := hshelf log es hrun hlog
  exact ⟨hcalls, log, es, m, hrun, hlog, hmap, hholds⟩

/-- There is no report under an id that is too long for a file, but that is not the answer. -/
theorem get_eq_of_long {id : String} (hid : isId id = true) (hlong : 250 < id.utf8ByteSize)
    (es : Folder) : get es id = .error (.file .nameTooLong) := by
  have hfits : ¬ Fits (fileName id) := fun hfits =>
    Nat.not_le_of_lt hlong (fits_fileName_iff.mp hfits)
  rw [get, if_pos hid, Folder.read, Folder.entry_of_not_fits hfits]
  rfl

end FactorStudy.ReportFolder
