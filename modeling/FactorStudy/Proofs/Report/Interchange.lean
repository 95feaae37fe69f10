import FactorStudy.Proofs.Database.Reports
import FactorStudy.Proofs.Double.Magnitude
import FactorStudy.Proofs.Double.Finite
import FactorStudy.Proofs.Report.Folder
import FactorStudy.Proofs.Report.Ranking

/-!
# Reports in a folder or in a database

Both stores are the same map to the one who uses them, so they give the same answers, but for the
ids that are too long for the name of a file. Two lists of the same reports may differ in the order
of those that rank equal, and in the signs of zeros (`SameRanking`): no order is by a sign.
-/

namespace FactorStudy

open Double (beq_iff unpack_zero pack_unpack)

/-! ## Rankings of the same summaries -/

/-- The size of a figure does not depend on the sign of a zero. -/
theorem abs_keptNumber (x : Float) : (keptNumber x).abs = x.abs := by
  unfold keptNumber
  by_cases h : (x == 0) = true
  · rw [if_pos h]
    rw [beq_iff, unpack_zero] at h
    cases hx : x.toModel.unpack with
    | zero s =>
      rw [← pack_unpack x, hx]
      cases s <;> rfl
    | notANumber => rw [hx] at h; cases h
    | infinity s => rw [hx] at h; cases s <;> cases h
    | finite s m e hm => rw [hx] at h; cases s <;> cases h
  · rw [if_neg h]

/-- What a summary says of its report, wherever it is ranked. -/
def ReportSummary.bare (s : ReportSummary) : ReportSummary := { s.unsigned with rank := 0 }

theorem ReportSummary.bare_unsigned (s : ReportSummary) : s.unsigned.bare = s.bare := by
  simp only [bare, unsigned, keptNumber_keptNumber]

theorem SortKey.weight_bare (key : SortKey) (s : ReportSummary) :
    key.weight s.bare = key.weight s := by
  cases key <;> simp only [weight, ReportSummary.bare, ReportSummary.unsigned, abs_keptNumber]

/-- The summaries are the same, and stand in the same order up to that of summaries of equal
weight. -/
structure SameRanking (key : SortKey) (ss ts : List ReportSummary) : Prop where
  perm : (ss.map (·.bare)).Perm (ts.map (·.bare))
  weights : ss.map key.weight = ts.map key.weight
  ranks : ss.map (·.rank) = ts.map (·.rank)

/-- The same summaries are ranked the same. -/
theorem sameRanking_rankSummaries {ss ts : List ReportSummary}
    (h : (ss.map (·.bare)).Perm (ts.map (·.bare))) (key : SortKey) :
    SameRanking key (rankSummaries ss key) (rankSummaries ts key) where
  perm := by
    have hbare : ∀ (s : ReportSummary) n, { s with rank := n : ReportSummary }.bare = s.bare :=
      fun _ _ => rfl
    exact ((perm_map_rankSummaries hbare ss key).trans h).trans
      (perm_map_rankSummaries hbare ts key).symm
  weights := by
    have hbare : ∀ ss : List ReportSummary,
        (ss.map (·.bare)).map key.weight = ss.map key.weight := by
      intro ss
      rw [List.map_map]
      exact List.map_congr_left fun s _ => key.weight_bare s
    have hperm := h.map key.weight
    rw [hbare, hbare] at hperm
    have hranked := ((perm_map_rankSummaries (weight_numbered key) ss key).trans hperm).trans
      (perm_map_rankSummaries (weight_numbered key) ts key).symm
    -- two descending lists of the same weights
    exact hranked.eq_of_pairwise (fun a b _ _ hab hba => Int.le_antisymm hba hab)
      (pairwise_weight_rankSummaries ss key) (pairwise_weight_rankSummaries ts key)
  ranks := by
    have hlength := h.length_eq
    rw [List.length_map, List.length_map] at hlength
    rw [map_rank_rankSummaries, map_rank_rankSummaries, hlength]

/-- Two lists with the same reports in them have the same summaries. -/
theorem Shelf.Lists.perm {shown shown' : ReportSummary → ReportSummary} {m : Shelf}
    {ss ts : List ReportSummary} (hss : m.Lists shown ss) (hts : m.Lists shown' ts)
    (hshown : ∀ s, (shown s).bare = (shown' s).bare) :
    (ss.map (·.bare)).Perm (ts.map (·.bare)) := by
  -- ids are told apart in each list, so the summaries without signs are too
  have hnodup : ∀ ss : List ReportSummary, (ss.map (·.id)).Nodup → (ss.map (·.bare)).Nodup := by
    intro ss hids
    have hsame : (ss.map (·.bare)).map (·.id) = ss.map (·.id) := by
      rw [List.map_map]
      rfl
    rw [← hsame] at hids
    exact hids.of_map
  refine (List.perm_ext_iff_of_nodup (hnodup ss hss.nodup) (hnodup ts hts.nodup)).mpr fun s => ?_
  rw [List.mem_map, List.mem_map]
  constructor
  · rintro ⟨t, ht, rfl⟩
    obtain ⟨r, hr, rfl⟩ := (hss.mem_iff t).mp ht
    exact ⟨shown' r.summary, (hts.mem_iff _).mpr ⟨r, hr, rfl⟩, (hshown r.summary).symm⟩
  · rintro ⟨t, ht, rfl⟩
    obtain ⟨r, hr, rfl⟩ := (hts.mem_iff t).mp ht
    exact ⟨shown r.summary, (hss.mem_iff _).mpr ⟨r, hr, rfl⟩, hshown r.summary⟩

/-! ## Answers -/

/-- The answers to a call are the same, and to a list they are the same up to ties. -/
inductive Agrees : StoreCall → StoreAnswer → StoreAnswer → Prop where
  | save {r : Report} (outcome : Outcome String) : Agrees (.save r) (.saved outcome) (.saved outcome)
  | get {id : String} (outcome : Outcome Report) : Agrees (.get id) (.got outcome) (.got outcome)
  | delete {id : String} (outcome : Outcome Unit) :
    Agrees (.delete id) (.deleted outcome) (.deleted outcome)
  | list {key : SortKey} {ss ts : List ReportSummary} :
    SameRanking key ss ts → Agrees (.list key) (.listed (.ok ss)) (.listed (.ok ts))

/-- The same call with answers that agree. -/
def SameAnswer (x y : StoreCall × StoreAnswer) : Prop := x.1 = y.1 ∧ Agrees x.1 x.2 y.2

/-- A call names an id with a property, if it names one. -/
def StoreCall.Names (P : String → Prop) : StoreCall → Prop
  | save r => P r.id
  | get id | delete id => P id
  | list _ => True

/-- The id is short enough for the file that the call needs: a draft has the longer name. -/
def StoreCall.Short : StoreCall → Prop
  | save r => r.id.utf8ByteSize ≤ 246
  | get id | delete id => id.utf8ByteSize ≤ 250
  | list _ => True

theorem agrees_of_answers {m : Shelf} {c : StoreCall} {a b : StoreAnswer} (ha : m.Answers id c a)
    (hb : m.Answers ReportSummary.unsigned c b) : Agrees c a b := by
  cases c with
  | save r =>
    obtain rfl := ha
    obtain rfl := hb
    exact .save _
  | get id =>
    obtain rfl := ha
    obtain rfl := hb
    exact .get _
  | delete id =>
    obtain rfl := ha
    obtain rfl := hb
    exact .delete _
  -- only lists may differ, in the order of what ranks alike and in the signs of zeros
  | list key =>
    obtain ⟨ss, hss, rfl⟩ := ha
    obtain ⟨ts, hts, rfl⟩ := hb
    have hshown : ∀ s : ReportSummary, s.bare = s.unsigned.bare := fun s => s.bare_unsigned.symm
    exact .list (sameRanking_rankSummaries (hss.perm hts hshown) key)

namespace ReportFolder

theorem refuses_eq_none_iff {c : StoreCall} (hc : c.Names (isId · = true)) :
    refuses c = none ↔ c.Short := by
  cases c with
  | save r =>
    exact refusal?_eq_none_iff.trans ((and_iff_right hc).trans fits_draftName_iff)
  | get id => exact refusal?_eq_none_iff.trans ((and_iff_right hc).trans fits_fileName_iff)
  | delete id => exact refusal?_eq_none_iff.trans ((and_iff_right hc).trans fits_fileName_iff)
  | list key => exact iff_of_true rfl trivial

/-- An id that is refused is one that is too long. -/
theorem eq_nameTooLong_of_refuses {c : StoreCall} {e : Error} (hc : c.Names (isId · = true))
    (h : refuses c = some e) : e = .file .nameTooLong := by
  have hcases : ∀ {id name}, isId id = true → refusal? id name = some e →
      e = .file .nameTooLong := by
    intro id name hid h
    rcases refusal?_cases h with ⟨hno, -⟩ | ⟨-, -, he⟩
    · exact absurd hid hno
    · exact he
  cases c with
  | save r => exact hcases hc h
  | get id => exact hcases hc h
  | delete id => exact hcases hc h
  | list key => cases h

end ReportFolder

theorem eq_failure_of_agrees {c : StoreCall} {e : Error} {b : StoreAnswer}
    (h : Agrees c (c.failure e) b) : b = c.failure e := by
  cases c with
  | save r => cases h; rfl
  | get id => cases h; rfl
  | delete id => cases h; rfl
  | list key => cases h

/-- From a map, a call fails only because there is no such report. -/
theorem Shelf.eq_reportNotFound_of_answers {shown : ReportSummary → ReportSummary} {m : Shelf}
    {c : StoreCall} {e : Error} (h : m.Answers shown c (c.failure e)) :
    ∃ id, e = .reportNotFound id := by
  -- a save and a list never fail with the map; the other two fail where the id is missing
  cases c with
  | save r => cases h
  | get id =>
    refine ⟨id, ?_⟩
    have hanswer := StoreAnswer.got.inj h
    cases hid : m.lookup id with
    | none => rw [hid] at hanswer; exact Except.error.inj hanswer
    | some r => rw [hid] at hanswer; cases hanswer
  | delete id =>
    refine ⟨id, ?_⟩
    have hanswer := StoreAnswer.deleted.inj h
    cases hid : m.lookup id with
    | none => rw [hid] at hanswer; exact Except.error.inj hanswer
    | some r => rw [hid] at hanswer; cases hanswer
  | list key =>
    obtain ⟨ss, -, hanswer⟩ := h
    cases hanswer

/-! ## Runs -/

section Runs

variable {m m₁ m₂ : Shelf} {log log₁ log₂ : List (StoreCall × StoreAnswer)}
  {refuses : StoreCall → Option Error} {shown : ReportSummary → ReportSummary}

/-- What a run of the map answers: the failures of the calls that are refused, and the rest from some
map. -/
theorem Shelf.forall_of_run (h : Run (Shelf.Step refuses shown) m log m₁) : ∀ x ∈ log,
    (∀ e, refuses x.1 = some e → x.2 = x.1.failure e) ∧
      (refuses x.1 = none → ∃ m : Shelf, m.Answers shown x.1 x.2) := by
  -- along the run: each call is refused or answered by what was stored then
  induction h with
  | nil m => exact List.forall_mem_nil _
  | cons hs _ ih =>
    refine List.forall_mem_cons.mpr ⟨?_, ih⟩
    cases hs with
    | refused he =>
      refine ⟨fun e' he' => ?_, fun hnone => ?_⟩
      · rw [he] at he'
        rw [Option.some.inj he']
      · rw [he] at hnone
        cases hnone
    | answered hnone ha =>
      refine ⟨fun e' he' => ?_, fun _ => ⟨_, ha⟩⟩
      rw [hnone] at he'
      cases he'

/-- As long as no call is refused, both maps stay the same. -/
theorem forall₂_sameAnswer (h₁ : Run (Shelf.Step refuses id) m log₁ m₁)
    (h₂ : Run (Shelf.Step (fun _ => none) ReportSummary.unsigned) m log₂ m₂)
    (hcalls : log₁.map (·.1) = log₂.map (·.1)) (hnone : ∀ x ∈ log₁, refuses x.1 = none) :
    List.Forall₂ SameAnswer log₁ log₂ := by
  -- along the first run; the map after a call does not depend on how numbers are shown
  induction h₁ generalizing log₂ with
  | nil m =>
    rw [List.map_nil, List.nil_eq, List.map_eq_nil_iff] at hcalls
    rw [hcalls]
    exact .nil
  | @cons m m' m'' c a log hs _ ih =>
    obtain ⟨hc, hrest⟩ := List.forall_mem_cons.mp hnone
    cases h₂ with
    | nil => cases hcalls
    | @cons _ t' _ c' b log' ht hrun =>
      obtain ⟨rfl, hlogs⟩ := List.cons.inj hcalls
      cases ht with
      | refused he => cases he
      | answered _ hb =>
        cases hs with
        | refused he =>
          rw [hc] at he
          cases he
        | answered _ ha => exact .cons ⟨rfl, agrees_of_answers ha hb⟩ (ih hrun hlogs hrest)

end Runs

/-- Two logs of the same calls, one of each store, agree only if no id is too long. -/
theorem forall_short_of_forall₂ {log₁ log₂ : List (StoreCall × StoreAnswer)}
    (hids : ∀ x ∈ log₁, x.1.Names (ReportFolder.isId · = true))
    (hlog₁ : ∀ x ∈ log₁, ∀ e, ReportFolder.refuses x.1 = some e → x.2 = x.1.failure e)
    (hlog₂ : ∀ y ∈ log₂, ∃ m : Shelf, m.Answers ReportSummary.unsigned y.1 y.2)
    (h : List.Forall₂ SameAnswer log₁ log₂) : ∀ x ∈ log₁, x.1.Short := by
  induction h with
  | nil => exact List.forall_mem_nil _
  | @cons x y log₁ log₂ hxy _ ih =>
    obtain ⟨hid, hids⟩ := List.forall_mem_cons.mp hids
    obtain ⟨hx, hlog₁⟩ := List.forall_mem_cons.mp hlog₁
    obtain ⟨hy, hlog₂⟩ := List.forall_mem_cons.mp hlog₂
    refine List.forall_mem_cons.mpr ⟨?_, ih hids hlog₁ hlog₂⟩
    obtain ⟨hcall, hagrees⟩ := hxy
    obtain ⟨m, hanswer⟩ := hy
    rw [← ReportFolder.refuses_eq_none_iff hid]
    cases hrefuse : ReportFolder.refuses x.1 with
    | none => rfl
    | some e =>
      -- the folder fails for the name, and no map fails for that
      rw [hx e hrefuse] at hagrees
      rw [← hcall, eq_failure_of_agrees hagrees] at hanswer
      obtain ⟨id, he⟩ := Shelf.eq_reportNotFound_of_answers hanswer
      rw [ReportFolder.eq_nameTooLong_of_refuses hid hrefuse] at he
      cases he

/-- **The stores are interchangeable for ids of some length.** Calls in a row that name ids of
letters, digits and hyphens are all answered by both stores, new at first. The answers agree if, and
only if, no id is saved that has more than 246 bytes, and none is asked for or deleted that has more
than 250: the folder has no room for these in the name of a file, and says so.

Both stores refine the same map, so the answers are compared there and the stores are not taken side
by side. Only lists leave something open, the order of what ranks alike. -/
theorem sameAnswer_iff_short (calls : List StoreCall)
    (hids : ∀ c ∈ calls, c.Names (ReportFolder.isId · = true))
    (hreports : ∀ c ∈ calls, c.Saves Report.IsTabular) :
    (∃ log es, Run ReportFolder.Step [] log es ∧ log.map (·.1) = calls) ∧
      (∃ log db, Run Database.Step Database.empty.initialized log db ∧ log.map (·.1) = calls) ∧
      ∀ log₁ es log₂ db, Run ReportFolder.Step [] log₁ es → log₁.map (·.1) = calls →
        Run Database.Step Database.empty.initialized log₂ db → log₂.map (·.1) = calls →
          (List.Forall₂ SameAnswer log₁ log₂ ↔ ∀ c ∈ calls, c.Short) := by
  refine ⟨ReportFolder.exists_run [] calls, Database.exists_run _ calls, ?_⟩
  rintro log₁ es log₂ db hrun₁ rfl hrun₂ hcalls
  rw [← hcalls] at hreports
  have htabular := List.forall_mem_map.mp hreports
  rw [hcalls] at hreports
  have hstorable : ∀ x ∈ log₁, x.1.Saves Report.IsStorable := by
    intro x hx
    have hsaves := List.forall_mem_map.mp hreports x hx
    cases hcall : x.1 with
    | save r =>
      rw [hcall] at hsaves
      exact hsaves.storable
    | get id | delete id | list key => trivial
  -- both runs are runs of maps, which start out the same
  obtain ⟨m₁, hmap₁, -⟩ := ReportFolder.run_refines hrun₁ hstorable
  obtain ⟨m₂, hmap₂, -⟩ := Database.run_refines hrun₂ htabular
  replace hids := List.forall_mem_map.mp hids
  rw [List.forall_mem_map]
  constructor
  · refine forall_short_of_forall₂ hids (fun x hx => ?_) fun y hy => ?_
    · exact (Shelf.forall_of_run hmap₁ x hx).1
    · exact (Shelf.forall_of_run hmap₂ y hy).2 rfl
  · intro hshort
    refine forall₂_sameAnswer hmap₁ hmap₂ hcalls.symm fun x hx => ?_
    exact (ReportFolder.refuses_eq_none_iff (hids x hx)).mpr (hshort x hx)

/-- One report is saved, found, listed and deleted in both. -/
def roundOfCalls : List StoreCall :=
  [.save (.idle "a-1"), .get "a-1", .list .score, .delete "a-1", .get "a-1"]

theorem sameAnswer_iff_short_idle :
    (∀ c ∈ roundOfCalls, c.Names (ReportFolder.isId · = true)) ∧
      (∀ c ∈ roundOfCalls, c.Saves Report.IsTabular) ∧
      ∀ log₁ es log₂ db, Run ReportFolder.Step [] log₁ es → log₁.map (·.1) = roundOfCalls →
        Run Database.Step Database.empty.initialized log₂ db → log₂.map (·.1) = roundOfCalls →
          List.Forall₂ SameAnswer log₁ log₂ := by
  have hid : ReportFolder.isId "a-1" = true := by decide
  have hids : ∀ c ∈ roundOfCalls, c.Names (ReportFolder.isId · = true) := by
    simp [roundOfCalls, StoreCall.Names, Report.idle, hid]
  have hreports : ∀ c ∈ roundOfCalls, c.Saves Report.IsTabular := by
    have htabular : (Report.idle "a-1").IsTabular := ⟨Report.isStorable_idle _, by decide, by decide⟩
    simp [roundOfCalls, StoreCall.Saves, htabular]
  have hshort : ∀ c ∈ roundOfCalls, c.Short := by
    have hsize : "a-1".utf8ByteSize = 3 := by decide
    simp [roundOfCalls, StoreCall.Short, Report.idle, hsize]
  refine ⟨hids, hreports, fun log₁ es log₂ db hrun₁ hlog₁ hrun₂ hlog₂ => ?_⟩
  exact ((sameAnswer_iff_short roundOfCalls hids hreports).2.2 log₁ es log₂ db hrun₁ hlog₁ hrun₂
    hlog₂).mpr hshort

end FactorStudy
