import FactorStudy.Files.Tree
import FactorStudy.Proofs.Files.Folder
import FactorStudy.Proofs.Outcome

/-!
# Paths that go on with a name

A name that is appended to the path of a folder leads to something in that folder, wherever the path
starts and whether or not it ends with a slash.
-/

namespace FactorStudy

namespace Path

/-- A name that is followed on the spot: no step to where one is, and no step back. -/
structure IsName (name : String) : Prop where
  closed : '/' ∉ name.toList
  leads : stays name = false
  ahead : name ≠ ".."

theorem ofText_of_isName {name : String} (h : IsName name) : ofText name = ⟨[name]⟩ := by
  rw [ofText, List.splitOn_eq_singleton h.closed, List.map_singleton, String.ofList_toList]

theorem isAbsolute_singleton (step : String) : isAbsolute ⟨[step]⟩ = false := by
  unfold isAbsolute
  split
  · rename_i heq
    cases (List.cons.inj heq).2
  · rfl

theorem isAbsolute_cons_cons (step step' : String) (rest : List String) :
    isAbsolute ⟨step :: step' :: rest⟩ = decide (step = "") := by
  by_cases h : step = ""
  · rw [h]
    rfl
  · rw [decide_eq_false h]
    unfold isAbsolute
    split
    · rename_i heq
      exact absurd (List.cons.inj heq).1 h
    · rfl

/-- A path that goes on with a name starts where the path starts. -/
theorem isAbsolute_closed_append {dir : Path} (h : ¬ dir.isEmpty) (name : String) :
    isAbsolute ⟨dir.closed.steps ++ [name]⟩ = dir.isAbsolute := by
  obtain ⟨steps⟩ := dir
  -- an empty path is as absolute as the name, a single empty step has been excluded
  match steps with
  | [] => exact isAbsolute_singleton name
  | [step] =>
    have hstep : step ≠ "" := by
      rintro rfl
      exact h rfl
    have hclosed : closed ⟨[step]⟩ = ⟨[step]⟩ := by
      refine if_neg fun hopen => hstep ?_
      exact Option.some.inj (beq_iff_eq.mp hopen)
    rw [hclosed, List.singleton_append, isAbsolute_cons_cons, decide_eq_false hstep,
      isAbsolute_singleton]
  | step :: step' :: rest =>
    have hclosed : ∃ rest', (closed ⟨step :: step' :: rest⟩).steps = step :: rest' := by
      unfold closed
      split
      · exact ⟨(step' :: rest).dropLast, rfl⟩
      · exact ⟨step' :: rest, rfl⟩
    obtain ⟨rest', hclosed⟩ := hclosed
    rw [hclosed, isAbsolute_cons_cons]
    cases rest' with
    | nil => exact isAbsolute_cons_cons _ _ _
    | cons => exact isAbsolute_cons_cons _ _ _

variable {dir : Path} {name : String}

theorem join_ofText_of_isName (hname : IsName name) (hdir : ¬ dir.isEmpty) :
    dir.join (ofText name) = ⟨dir.closed.steps ++ [name]⟩ := by
  have hrelative : ¬ (isAbsolute ⟨[name]⟩ = true ∨ dir.isEmpty = true) := by
    rw [isAbsolute_singleton]
    rintro (h | h)
    · cases h
    · exact hdir h
  rw [ofText_of_isName hname, join, if_neg hrelative]

/-- The characters of a path, slashes aside, are those of its steps. -/
theorem mem_text_iff {p : Path} {c : Char} (hc : c ≠ '/') :
    c ∈ p.text.toList ↔ ∃ step ∈ p.steps, c ∈ step.toList := by
  obtain ⟨steps⟩ := p
  rw [text, String.toList_intercalate]
  induction steps with
  | nil => simp [List.intercalate]
  | cons step steps ih =>
    cases steps with
    | nil => simp [List.intercalate]
    | cons step' steps =>
      rw [List.map_cons, List.map_cons, List.intercalate_cons_cons, List.mem_append,
        List.mem_append, ← List.map_cons, ih, List.exists_mem_cons_iff]
      simp [hc]

theorem mem_steps_of_mem_closed {step : String} (h : step ∈ dir.closed.steps) :
    step ∈ dir.steps := by
  unfold closed at h
  split at h
  · exact List.dropLast_subset _ h
  · exact h

/-- A path that goes on with a name can be followed if it is not too long. -/
theorem check_join (hname : IsName name) (hnul : '\x00' ∉ name.toList) (hdir : dir.check = .ok ()) :
    (dir.join (ofText name)).check =
      if lengthLimit < (dir.join (ofText name)).text.utf8ByteSize then .error .nameTooLong
      else .ok () := by
  have hdir' : ¬ dir.isEmpty ∧ '\x00' ∉ dir.text.toList := by
    unfold check at hdir
    split_ifs at hdir with h₁ h₂ h₃
    rw [String.contains_char_eq, decide_eq_true_iff] at h₁
    exact ⟨h₂, h₁⟩
  obtain ⟨hempty, hclean⟩ := hdir'
  have hjoin := join_ofText_of_isName hname hempty
  -- the checks one by one: a NUL would be in the folder's path or in the name
  have hnul' : ¬ (dir.join (ofText name)).text.contains '\x00' = true := by
    rw [String.contains_char_eq, decide_eq_true_iff, mem_text_iff (by decide), hjoin]
    rintro ⟨step, hstep, hmem⟩
    rcases List.mem_append.mp hstep with hstep | hstep
    · exact hclean ((mem_text_iff (by decide)).mpr ⟨step, mem_steps_of_mem_closed hstep, hmem⟩)
    · rw [List.mem_singleton.mp hstep] at hmem
      exact hnul hmem
  have hsome : ¬ (dir.join (ofText name)).isEmpty := by
    rw [hjoin, isEmpty, beq_iff_eq]
    intro h
    have hlast : name = "" := by
      have h := congrArg List.getLast? h
      rw [List.getLast?_concat] at h
      exact Option.some.inj h
    have hleads := hname.leads
    rw [hlast] at hleads
    cases hleads
  rw [check, if_neg hnul', if_neg hsome]

end Path

namespace FileTree

variable {t : FileTree}

theorem walk_append (start xs ys : List String) :
    t.walk start (xs ++ ys) = (t.walk start xs).bind fun location => t.walk location ys := by
  induction xs generalizing start with
  | nil => rfl
  | cons step xs ih =>
    rw [List.cons_append, walk, walk]
    cases t.root.find? start with
    | none => rfl
    | some node =>
      cases node with
      | folder es =>
        simp only
        -- a step stays, goes back or goes into a folder; each leaves the rest as it was
        by_cases hstays : Path.stays step = true
        · rw [if_pos hstays, if_pos hstays, ih]
        · rw [if_neg hstays, if_neg hstays]
          by_cases hback : step = ".."
          · rw [if_pos hback, if_pos hback, ih]
          · rw [if_neg hback, if_neg hback]
            cases Path.checkName step with
            | error fault => rfl
            | ok _ => exact ih _
      | text | bytes | database => rfl

/-- A name leads into the folder from which it is followed, where any step could be taken. -/
theorem walk_name {start location : List String} {name : String} (hname : Path.IsName name)
    (h : t.walk start [name] = .ok location) :
    location = start ++ [name] ∧ ∀ step, Path.stays step → t.walk start [step] = .ok start := by
  rw [walk] at h
  split at h
  · cases h
  · rename_i es hfolder
    rw [if_neg (Bool.eq_false_iff.mp hname.leads), if_neg hname.ahead] at h
    obtain ⟨_, -, h⟩ := exists_of_bind_eq_ok h
    refine ⟨(Except.ok.inj h).symm, fun step hstays => ?_⟩
    rw [walk, hfolder]
    exact if_pos hstays
  · cases h

/-- What a path to a folder goes on to with a name is in that folder. -/
theorem locate_join {dir : Path} {name : String} {location : List String}
    (hname : Path.IsName name) (h : t.locate (dir.join (.ofText name)) = .ok location) :
    ∃ base, t.walk (t.start dir.base) dir.base.steps = .ok base ∧ location = base ++ [name] := by
  obtain ⟨-, -, h⟩ := exists_of_bind_eq_ok h
  by_cases hempty : dir.isEmpty = true
  · rw [Path.ofText_of_isName hname, Path.join, if_pos (Or.inr hempty), start,
      Path.isAbsolute_singleton] at h
    obtain ⟨hlocation, hstay⟩ := walk_name hname h
    refine ⟨t.here, ?_, hlocation⟩
    rw [Path.base, if_pos hempty]
    exact hstay "." rfl
  · rw [Path.join_ofText_of_isName hname hempty, start, Path.isAbsolute_closed_append hempty,
      walk_append] at h
    obtain ⟨base, hbase, hlast⟩ := exists_of_bind_eq_ok h
    obtain ⟨hlocation, hstay⟩ := walk_name hname hlast
    refine ⟨base, ?_, hlocation⟩
    rw [Path.base, if_neg hempty, start]
    -- the path to the folder may end with a slash, which leads nowhere else
    by_cases hopen : dir.endsOpen = true
    · obtain ⟨before, hsteps⟩ := List.getLast?_eq_some_iff.mp (beq_iff_eq.mp hopen)
      rw [Path.closed, if_pos hopen, hsteps, List.dropLast_concat] at hbase
      rw [hsteps, walk_append, hbase]
      exact hstay "" rfl
    · rwa [Path.closed, if_neg hopen] at hbase

/-- The path of a folder can be followed. -/
theorem check_of_folder {dir : Path} {es : Folder} (h : t.folder dir = .ok es) :
    dir.check = .ok () := by
  obtain ⟨_, hnode, -⟩ := exists_of_bind_eq_ok h
  obtain ⟨_, hlocate, -⟩ := exists_of_bind_eq_ok hnode
  obtain ⟨_, hcheck, -⟩ := exists_of_bind_eq_ok hlocate
  exact hcheck

/-- What a folder's path goes on to with a name. -/
theorem node_join {dir : Path} {es : Folder} {name : String} (h : t.folder dir = .ok es)
    (hname : Path.IsName name) :
    t.node (dir.join (.ofText name)) = (dir.join (.ofText name)).check.bind fun _ =>
      (Path.checkName name).bind fun _ =>
        match es.lookup name with
        | some node => .ok node
        | none => .error .notFound := by
  obtain ⟨found, hnode, hfound⟩ := exists_of_bind_eq_ok h
  obtain ⟨location, hlocate, hfind⟩ := exists_of_bind_eq_ok hnode
  obtain ⟨_, hcheck, hwalk⟩ := exists_of_bind_eq_ok hlocate
  have hfolder : t.root.find? location = some (.folder es) := by
    cases hnode : t.root.find? location with
    | none => rw [hnode] at hfind; cases hfind
    | some other =>
      rw [hnode] at hfind
      obtain rfl := Except.ok.inj hfind
      cases other with
      | folder inner => rw [Except.ok.inj hfound]
      | text | bytes | database => cases hfound
  have hempty : ¬ dir.isEmpty := by
    intro hempty
    unfold Path.check at hcheck
    split_ifs at hcheck
  have hstay : ∀ before : List String, t.walk before [""] = .ok location →
      before = location := by
    intro before h
    rw [walk] at h
    split at h
    · cases h
    · exact Except.ok.inj h
    · cases h
  -- the path to the folder may end with a slash, which leads nowhere else
  have hlocation : t.walk (t.start dir) dir.closed.steps = .ok location := by
    unfold Path.closed
    split
    · rename_i hopen
      obtain ⟨before, hsteps⟩ := List.getLast?_eq_some_iff.mp (beq_iff_eq.mp hopen)
      rw [hsteps, walk_append] at hwalk
      obtain ⟨stop, hstop, hlast⟩ := exists_of_bind_eq_ok hwalk
      rw [hsteps, List.dropLast_concat, hstop, hstay stop hlast]
    · exact hwalk
  have hlast : t.walk location [name] =
      (Path.checkName name).bind fun _ => .ok (location ++ [name]) := by
    rw [walk, hfolder]
    simp only [hname.leads, hname.ahead, Bool.false_eq_true]
    rfl
  have hstart : t.start (dir.join (.ofText name)) = t.start dir := by
    rw [start, start, Path.join_ofText_of_isName hname hempty, Path.isAbsolute_closed_append hempty]
  have hjoin : t.walk (t.start (dir.join (.ofText name))) (dir.join (.ofText name)).steps =
      (Path.checkName name).bind fun _ => .ok (location ++ [name]) := by
    rw [hstart, Path.join_ofText_of_isName hname hempty, walk_append, hlocation]
    exact hlast
  rw [node, locate, hjoin]
  cases (dir.join (.ofText name)).check with
  | error fault => rfl
  | ok _ =>
    cases Path.checkName name with
    | error fault => rfl
    | ok _ =>
      show (match t.root.find? (location ++ [name]) with | some node => _ | none => _) = _
      rw [Folder.find?_concat hfolder]
      rfl

theorem isFile_iff {p : Path} :
    t.isFile p = true ↔ ∃ node, t.node p = .ok node ∧ ∀ inner, node ≠ .folder inner := by
  rw [isFile]
  cases t.node p with
  | error fault => simp
  | ok node => cases node <;> simp

end FileTree

end FactorStudy
