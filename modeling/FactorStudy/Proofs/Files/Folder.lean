import FactorStudy.Files.Folder
import Mathlib.Data.List.Nodup

/-!
# What a folder holds after an operation

The entries of a folder are looked at as a set, in which each name occurs once (`Distinct`). An
operation is given by the entries it leaves, and by the names it needs: none too long, and none that
of a folder where a file is to be.
-/

namespace FactorStudy.Folder

variable {es : Folder} {name : String} {node : Node} {e : String × Node}

/-- No name occurs twice. -/
def Distinct (es : Folder) : Prop := (es.map (·.1)).Nodup

theorem mem_erase : e ∈ es.erase name ↔ e ∈ es ∧ e.1 ≠ name := by
  rw [erase, List.mem_filter, Bool.not_eq_true', beq_eq_false_iff_ne]

theorem mem_put : e ∈ es.put name node ↔ e = (name, node) ∨ e ∈ es ∧ e.1 ≠ name := by
  rw [put, List.mem_cons, mem_erase]

theorem Distinct.erase (h : es.Distinct) (name : String) : (es.erase name).Distinct :=
  (List.filter_sublist.map _).nodup h

theorem Distinct.put (h : es.Distinct) (name : String) (node : Node) :
    (es.put name node).Distinct := by
  refine List.nodup_cons.mpr ⟨fun hmem => ?_, h.erase name⟩
  obtain ⟨e, he, hname⟩ := List.mem_map.mp hmem
  exact (mem_erase.mp he).2 hname

/-- Where no name occurs twice, a name stands for what is listed with it. -/
theorem lookup_eq_some_iff (h : es.Distinct) : es.lookup name = some node ↔ (name, node) ∈ es := by
  induction es with
  | nil => simp
  | cons e es ih =>
    obtain ⟨n, v⟩ := e
    obtain ⟨hnew, hrest⟩ := List.nodup_cons.mp h
    rw [List.lookup_cons, List.mem_cons, Prod.mk.injEq]
    -- the first entry of the name is the only one
    by_cases hn : name = n
    · subst hn
      simp only [beq_self_eq_true, Option.some.injEq]
      have hnot : (name, node) ∉ es := fun hmem => hnew (List.mem_map.mpr ⟨_, hmem, rfl⟩)
      constructor
      · rintro rfl
        exact Or.inl ⟨trivial, rfl⟩
      · rintro (⟨-, hv⟩ | hmem)
        · exact hv.symm
        · exact absurd hmem hnot
    · simp only [beq_false_of_ne hn, ih hrest]
      exact ⟨Or.inr, fun h => h.elim (fun h => absurd h.1 hn) id⟩

theorem lookup_eq_none_iff : es.lookup name = none ↔ ∀ e ∈ es, e.1 ≠ name := by
  rw [List.lookup_eq_none_iff]
  refine forall₂_congr fun e _ => ?_
  rw [bne_iff_ne]
  exact ne_comm

theorem exists_lookup_iff : (∃ node, es.lookup name = some node) ↔ ∃ e ∈ es, e.1 = name := by
  rw [← Option.isSome_iff_exists, Option.isSome_iff_ne_none, Ne, lookup_eq_none_iff]
  push Not
  rfl

/-- The name is short enough to be looked for. -/
def Fits (name : String) : Prop := name.utf8ByteSize ≤ Path.nameLimit

theorem checkName_of_fits (h : Fits name) : Path.checkName name = .ok () :=
  if_neg (Nat.not_lt_of_le h)

theorem entry_of_fits (h : Fits name) : es.entry name = .ok (es.lookup name) := by
  rw [entry, checkName_of_fits h]
  rfl

theorem entry_of_not_fits (h : ¬ Fits name) : es.entry name = .error .nameTooLong := by
  rw [entry, Path.checkName, if_pos (Nat.lt_of_not_le h)]
  rfl

theorem read_eq (h : Fits name) : es.read name = content (es.lookup name) := by
  rw [Folder.read, entry_of_fits h]
  rfl

theorem write_eq (h : Fits name) (hfile : ∀ inner, es.lookup name ≠ some (.folder inner))
    (text : String) : es.write name text = .ok (es.put name (.text text)) := by
  rw [write, entry_of_fits h]
  cases hlookup : es.lookup name with
  | none => rfl
  | some other =>
    cases other with
    | folder inner => exact absurd hlookup (hfile inner)
    | text content => rfl
    | bytes => rfl
    | database db => rfl

theorem rename_eq {old new : String} (hold : Fits old) (hnew : Fits new)
    (hnode : es.lookup old = some node) (hfile : ∀ inner, es.lookup new ≠ some (.folder inner)) :
    es.rename old new = .ok ((es.erase old).put new node) := by
  rw [rename, entry_of_fits hold, entry_of_fits hnew, hnode]
  cases hlookup : es.lookup new with
  | none => rfl
  | some other =>
    cases other with
    | folder inner => exact absurd hlookup (hfile inner)
    | text content => rfl
    | bytes => rfl
    | database db => rfl

theorem remove_eq {text : String} (h : Fits name) (hnode : es.lookup name = some (.text text)) :
    es.remove name = .ok (es.erase name) := by
  rw [remove, entry_of_fits h, hnode]
  rfl

theorem remove_of_lookup_eq_none (h : Fits name) (hnode : es.lookup name = none) :
    es.remove name = .error .notFound := by
  rw [remove, entry_of_fits h, hnode]
  rfl

/-- A location that goes on with a name. -/
theorem find?_concat {root es : Folder} {location : List String} {name : String}
    (h : root.find? location = some (.folder es)) :
    root.find? (location ++ [name]) = es.lookup name := by
  -- along the location that is already found
  induction location generalizing root with
  | nil =>
    cases h
    rw [List.nil_append, find?]
    cases es.lookup name with
    | none => rfl
    | some node => cases node <;> rfl
  | cons step rest ih =>
    rw [find?] at h
    rw [List.cons_append, find?]
    cases hstep : root.lookup step with
    | none => rw [hstep] at h; cases h
    | some node =>
      rw [hstep] at h
      cases node with
      | folder inner => exact ih h
      | text | bytes | database =>
        dsimp only at h
        split at h
        · cases h
        · cases h

end FactorStudy.Folder
