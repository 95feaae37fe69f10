import Mathlib.Data.List.Forall2

/-!
# Steps that can fail

What is known when a chain of steps has succeeded, and which fault comes out of a chain in which
several steps could fail.
-/

namespace FactorStudy

variable {ε ε' α β γ δ : Type}

/-- Two steps succeed when the first one does and the second one on what it gave. -/
theorem exists_of_bind_eq_ok {x : Except ε α} {f : α → Except ε β} {b : β}
    (h : x.bind f = .ok b) : ∃ a, x = .ok a ∧ f a = .ok b := by
  cases x with
  | error fault => cases h
  | ok a => exact ⟨a, rfl, h⟩

/-- Telling a fault in other words makes no success of it. -/
theorem eq_ok_of_mapError_eq_ok {x : Except ε α} {f : ε → ε'} {a : α}
    (h : x.mapError f = .ok a) : x = .ok a := by
  cases x with
  | error fault => cases h
  | ok b => rw [Except.ok.inj h]

theorem isOk_iff {x : Except ε α} : x.isOk = true ↔ ∃ a, x = .ok a := by
  cases x with
  | error fault => exact iff_of_false Bool.false_ne_true fun ⟨_, h⟩ => by cases h
  | ok a => exact iff_of_true rfl ⟨a, rfl⟩

/-- A step taken for each item of a list succeeds when it does for every item. -/
theorem forall₂_of_mapM_eq_ok {f : γ → Except ε α} {items : List γ} {results : List α}
    (h : items.mapM f = .ok results) : List.Forall₂ (fun i a => f i = .ok a) items results := by
  induction items generalizing results with
  | nil =>
    cases h
    exact .nil
  | cons i items ih =>
    rw [List.mapM_cons] at h
    obtain ⟨a, ha, h⟩ := exists_of_bind_eq_ok h
    obtain ⟨as, has, h⟩ := exists_of_bind_eq_ok h
    cases h
    exact .cons ha (ih has)

theorem mapM_eq_ok {f : γ → Except ε α} {g : γ → α} {items : List γ}
    (h : ∀ i ∈ items, f i = .ok (g i)) : items.mapM f = .ok (items.map g) := by
  induction items with
  | nil => rfl
  | cons i items ih =>
    rw [List.mapM_cons, h i List.mem_cons_self, ih fun j hj => h j (List.mem_cons_of_mem i hj)]
    rfl

/-- The same where a step that gives nothing says no more than that. -/
theorem mapM_eq_some {f : γ → Option α} {g : γ → α} {items : List γ}
    (h : ∀ i ∈ items, f i = some (g i)) : items.mapM f = some (items.map g) := by
  induction items with
  | nil => rfl
  | cons i items ih =>
    rw [List.mapM_cons, h i List.mem_cons_self, ih fun j hj => h j (List.mem_cons_of_mem i hj)]
    rfl

/-- One step that gives nothing is enough for nothing to come of all of them. -/
theorem mapM_eq_none {f : γ → Option α} {items : List γ} {i : γ} (hi : i ∈ items)
    (h : f i = none) : items.mapM f = none := by
  induction items with
  | nil => cases hi
  | cons j items ih =>
    rw [List.mapM_cons]
    rcases List.mem_cons.mp hi with rfl | hi
    · rw [h]
      rfl
    · rw [ih hi]
      cases f j <;> rfl

/-- Steps that keep an invariant and succeed wherever it holds are taken to the end. -/
theorem exists_foldlM_eq_ok {σ : Type} {P : σ → Prop} {f : σ → γ → Except ε σ} {items : List γ}
    (hstep : ∀ s, P s → ∀ i ∈ items, ∃ t, f s i = .ok t ∧ P t) {s : σ} (hs : P s) :
    ∃ t, items.foldlM f s = .ok t ∧ P t := by
  induction items generalizing s with
  | nil => exact ⟨s, rfl, hs⟩
  | cons i items ih =>
    obtain ⟨t, ht, hP⟩ := hstep s hs i List.mem_cons_self
    obtain ⟨u, hu, hQ⟩ := ih (fun s hs j hj => hstep s hs j (List.mem_cons_of_mem i hj)) hP
    refine ⟨u, ?_, hQ⟩
    rw [List.foldlM_cons, ht]
    exact hu

/-- A step fails with the first of its possible faults, and succeeds when there is none. -/
inductive Reports : List ε → Except ε α → Prop
  | passes (a : α) : Reports [] (.ok a)
  | fails (fault : ε) (others : List ε) : Reports (fault :: others) (.error fault)

namespace Reports

variable {faults others : List ε} {x : Except ε α}

/-- The faults of a second step come behind those of the first. -/
theorem bind {f : α → Except ε β} (hx : Reports faults x)
    (hf : ∀ a, x = .ok a → Reports others (f a)) : Reports (faults ++ others) (x.bind f) := by
  cases hx with
  | passes a => exact hf a rfl
  | fails fault more => exact .fails fault (more ++ others)

theorem map (f : α → β) (hx : Reports faults x) : Reports faults (x.map f) := by
  cases hx with
  | passes a => exact .passes (f a)
  | fails fault more => exact .fails fault more

theorem mapError (f : ε → ε') (hx : Reports faults x) : Reports (faults.map f) (x.mapError f) := by
  cases hx with
  | passes a => exact .passes a
  | fails fault more => exact .fails (f fault) (more.map f)

/-- Steps taken item by item have the faults of each item, in order. -/
theorem mapM {f : γ → Except ε α} {faultsOf : δ → List ε} {names : List δ} {items : List γ}
    (h : List.Forall₂ (fun d i => Reports (faultsOf d) (f i)) names items) :
    Reports (names.flatMap faultsOf) (items.mapM f) := by
  induction h with
  | nil => exact .passes []
  | cons hd _ ih =>
    rw [List.flatMap_cons, List.mapM_cons]
    exact bind hd fun a _ => map (a :: ·) ih

end Reports

end FactorStudy
