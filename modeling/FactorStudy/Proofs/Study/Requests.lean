import FactorStudy.Proofs.Outcome
import FactorStudy.Proofs.Evaluation.Nodes

/-!
# Which fault a request reports, and what it asks of a source

A request can have many faults at once. They are listed here in the order in which they are looked
for: its own faults (`Expr.faults`, `WeightedFactor.faults`, `Scope.faults`), and those that show
only when the data is there (`Expr.overlong`). A request with a fault of its own fails with the
first one and asks its source nothing; any other request asks once, whatever the source is.
-/

namespace FactorStudy

/-! ## The faults of a request -/

namespace Expr

/-- The faults of a text: that it is no expression, or else those of the windows in it. -/
def faults (text : String) : List Error :=
  match parse text with
  | .error err => [.parse err]
  | .ok e => (e.windowErrors windowFault?).map Error.window

/-- The fault of a window that is longer than a panel of `bars` bars. -/
def beyond? (bars : ℕ) (_ : Builtin) (n : ℤ) : Option WindowFault :=
  if (bars : ℤ) < n then some (.beyondPanel n bars) else none

/-- The windows of a text's expression that are longer than a panel of `bars` bars. -/
def overlong (bars : ℕ) (text : String) : List Error :=
  match parse text with
  | .error _ => []
  | .ok e => (e.windowErrors (beyond? bars)).map Error.window

/-- A check of the windows finds the first fault in preorder. -/
theorem reports_firstFault (fault? : Builtin → ℤ → Option WindowFault) (e : Expr) :
    Reports (e.windowErrors fault?) (e.firstFault fault?) := by
  rw [← filterMap_windows]
  unfold firstFault
  rw [← List.head?_filterMap]
  cases List.filterMap (fun (w : Builtin × ℤ) => (fault? w.1 w.2).map (WindowError.mk w.1))
    e.windows with
  | nil => exact .passes ()
  | cons err others => exact .fails err others

theorem reports_check (text : String) : Reports (faults text) (check text) := by
  unfold faults check
  cases parse text with
  | error err => exact .fails _ []
  | ok e => exact ((reports_firstFault windowFault? e).mapError Error.window).map fun _ => e

/-- An accepted text has no faults left but windows that are too long for the data. -/
theorem reports_evaluate {text : String} {e : Expr} (h : check text = .ok e)
    (policy : WindowPolicy) (p : Panel Float) :
    Reports (if policy = .strict then overlong p.size text else [])
      ((e.evaluate policy p).mapError Error.window) := by
  obtain ⟨hparse, hwindows⟩ := check_eq_ok_iff.mp h
  have hoverlong : overlong p.size text = (e.windowErrors (beyond? p.size)).map Error.window := by
    rw [overlong, hparse]
  have hevaluate : e.evaluate policy p =
      (if policy = .strict then e.checkPanelLength p.size else .ok ()).map
        fun _ => .ofValues (e.eval p) := by
    unfold evaluate
    rw [hwindows]
    split <;> rfl
  rw [hevaluate]
  split
  · rw [hoverlong]
    exact ((reports_firstFault (beyond? p.size) e).map _).mapError Error.window
  · exact .passes _

end Expr

/-- The faults of a combination's weights, or that there are none. -/
def WeightedFactor.faults (factors : List WeightedFactor) : List Error :=
  if factors.isEmpty then [.emptyCombination]
  else (factors.filter fun f => !f.weight.isFinite).map fun f => .invalidWeight f.expression f.weight

/-- The faults of what a backtest is asked to run on. -/
def Scope.faults (scope : Scope) : List Error :=
  (if 1 ≤ scope.periods then [] else [.invalidPeriods scope.periods.toNat]) ++
    if scope.quantile ∈ quantileChoices then [] else [.invalidQuantile scope.quantile]

theorem WeightedFactor.reports_checkAll (factors : List WeightedFactor) :
    Reports (faults factors) (checkAll factors) := by
  unfold faults checkAll
  split
  · exact .fails _ []
  · rw [← List.head?_filter]
    cases factors.filter fun f => !f.weight.isFinite with
    | nil => exact .passes ()
    | cons f others => exact .fails _ _

namespace Study

/-- The faults that a request for one factor has by itself. -/
def faultsSingle (text : String) (scope : Scope) : List Error :=
  Expr.faults text ++ scope.faults

/-- The faults that a request for a combination has by itself. -/
def faultsCombination (factors : List WeightedFactor) (scope : Scope) : List Error :=
  WeightedFactor.faults factors ++
    (factors.flatMap (fun f => Expr.faults f.expression) ++ scope.faults)

/-- The faults that expressions have on a panel, when long windows are turned down. -/
def faultsOn (settings : Settings) (texts : List String) (panel : Panel Float) : List Error :=
  if settings.strictWindows then texts.flatMap (Expr.overlong panel.size) else []

theorem reports_configOf (settings : Settings) (scope : Scope) :
    Reports scope.faults (configOf settings scope) := by
  unfold Scope.faults configOf BacktestConfig.of
  split_ifs
  · exact .passes _
  · exact .fails _ []
  · exact .fails _ []
  · exact .fails _ _

theorem reports_checkSingle (settings : Settings) (text : String) (scope : Scope) :
    Reports (faultsSingle text scope) (checkSingle settings text scope) :=
  (Expr.reports_check text).bind fun e _ => (reports_configOf settings scope).map fun c => (e, c)

theorem reports_checkCombination (settings : Settings) (factors : List WeightedFactor)
    (scope : Scope) :
    Reports (faultsCombination factors scope) (checkCombination settings factors scope) := by
  refine (WeightedFactor.reports_checkAll factors).bind fun _ _ => ?_
  refine (Reports.mapM ?_).bind fun es _ => ?_
  · exact List.forall₂_same.mpr fun f _ => Expr.reports_check f.expression
  · exact (reports_configOf settings scope).map fun c => (es, c)

/-- The expressions of a combination that passed its checks are those of its factors. -/
theorem forall₂_of_checkCombination {settings : Settings} {factors : List WeightedFactor}
    {scope : Scope} {es : List Expr} {config : BacktestConfig Float}
    (h : checkCombination settings factors scope = .ok (es, config)) :
    List.Forall₂ (fun f e => Expr.check f.expression = .ok e) factors es ∧
      configOf settings scope = .ok config := by
  obtain ⟨-, -, h⟩ := exists_of_bind_eq_ok h
  obtain ⟨es', hes, h⟩ := exists_of_bind_eq_ok h
  obtain ⟨config', hconfig, h⟩ := exists_of_bind_eq_ok h
  cases h
  exact ⟨forall₂_of_mapM_eq_ok hes, hconfig⟩

/-- What is computed for a text that was accepted fails for nothing but a window too long. -/
theorem reports_factorOn {text : String} {e : Expr} (h : Expr.check text = .ok e)
    (settings : Settings) (panel : Panel Float) :
    Reports (faultsOn settings [text] panel) (factorOn settings panel e) := by
  have hreports := Expr.reports_evaluate h settings.windowPolicy panel
  have hpolicy : settings.windowPolicy = .strict ↔ settings.strictWindows = true := by
    unfold Settings.windowPolicy
    split <;> simp_all
  simp only [hpolicy] at hreports
  unfold faultsOn
  rwa [List.flatMap_singleton]

theorem flatMap_faultsOn (settings : Settings) (texts : List String) (panel : Panel Float) :
    (texts.flatMap fun text => faultsOn settings [text] panel) =
      faultsOn settings texts panel := by
  unfold faultsOn
  split
  · simp only [List.flatMap_singleton]
  · exact List.flatMap_eq_nil_iff.mpr fun _ _ => rfl

/-- Behind the checks, a fault is a window that is longer than the panel. -/
theorem exists_of_mem_faultsOn {settings : Settings} {texts : List String} {panel : Panel Float}
    {fault : Error} (h : fault ∈ faultsOn settings texts panel) :
    settings.strictWindows = true ∧ ∃ f n, (panel.size : ℤ) < n ∧
      fault = .window ⟨f, .beyondPanel n panel.size⟩ := by
  unfold faultsOn at h
  split at h
  · rename_i hstrict
    refine ⟨hstrict, ?_⟩
    obtain ⟨text, -, hfault⟩ := List.mem_flatMap.mp h
    unfold Expr.overlong at hfault
    split at hfault
    · cases hfault
    · -- such an error comes from a call in the tree, with the window it has there
      obtain ⟨err, herr, rfl⟩ := List.mem_map.mp hfault
      obtain ⟨node, -, hnode⟩ := List.mem_filterMap.mp herr
      cases node with
      | call f args =>
        obtain ⟨n, -, hn⟩ := Option.bind_eq_some_iff.mp hnode
        unfold Expr.beyond? at hn
        split at hn
        · rename_i hlong
          cases hn
          exact ⟨f, n, hlong, rfl⟩
        · cases hn
      | _ => cases hnode
  · cases h

/-! ## Asking a source -/

variable {σ : Type}

/-- A source with a state, beside which a record is kept of what it is asked. -/
def recorded (source : Source (StateM σ)) : Source (StateM (σ × List Query)) :=
  fun query (s, asked) => ((source query s).1, (source query s).2, asked ++ [query])

/-- How a request with the faults `own` deals with a source. The faults `late` are those it has on
a panel. -/
structure AsksOnce {β : Type} (source : Source (StateM σ)) (query : Query) (own : List Error)
    (late : Panel Float → List Error) (request : StateM (σ × List Query) (Outcome β)) : Prop where
  /-- With a fault of its own it fails with the first of them, and nothing is asked. -/
  refused : ∀ fault others, own = fault :: others →
    ∀ s asked, request (s, asked) = (.error fault, s, asked)
  /-- Otherwise its query is asked, and no other one. -/
  asks : own = [] → ∀ s asked, (request (s, asked)).2 = ((source query s).2, asked ++ [query])
  /-- A failure of the source is its own failure. -/
  passesOn : own = [] → ∀ s asked fault, (source query s).1 = .error fault →
    (request (s, asked)).1 = .error fault
  /-- With a panel it fails with the first late fault. -/
  reports : own = [] → ∀ s asked panel, (source query s).1 = .ok panel →
    Reports (late panel) (request (s, asked)).1

section Fetching

variable {α β : Type} {checked : Outcome α} {rest : α → Panel Float → Outcome β}

/-- A fetching request fails with a failed check, or else with a failed fetch. -/
theorem fst_fetching (source : Source (StateM σ)) (query : Query) (s : σ) :
    (fetching source query checked rest s).1 =
      checked.bind fun a => (source query s).1.bind (rest a) := by
  cases checked with
  | error fault => rfl
  | ok a =>
    cases hsource : source query s with
    | mk answer t =>
      cases answer <;> simp only [fetching, bind, StateT.bind, hsource] <;> rfl

theorem snd_fetching (source : Source (StateM σ)) (query : Query) (a : α) (s : σ) :
    (fetching source query (.ok a) rest s).2 = (source query s).2 := by
  cases hsource : source query s with
  | mk answer t =>
    cases answer <;> simp only [fetching, bind, StateT.bind, hsource] <;> rfl

/-- A request that checks before it fetches asks once. -/
theorem asksOnce_fetching (source : Source (StateM σ)) (query : Query) {own : List Error}
    {late : Panel Float → List Error} (hown : Reports own checked)
    (hlate : ∀ a, checked = .ok a → ∀ panel, Reports (late panel) (rest a panel)) :
    AsksOnce source query own late (fetching (recorded source) query checked rest) := by
  -- a failed check ends the request before anything is recorded
  cases hown with
  | fails fault others =>
    refine ⟨?_, ?_, ?_, ?_⟩
    · intro fault' others' h s asked
      cases h
      rfl
    all_goals
      intro h
      cases h
  | passes a =>
    refine ⟨?_, ?_, ?_, ?_⟩
    · intro fault others h
      cases h
    · intro _ s asked
      rw [snd_fetching]
      rfl
    · intro _ s asked fault hfault
      rw [fst_fetching, recorded, hfault]
      rfl
    · intro _ s asked panel hpanel
      rw [fst_fetching, recorded, hpanel]
      exact hlate a rfl panel

end Fetching

/-- **One fetch for a request.** A request is checked before anything is asked, and then asks once.
Every fault it can have is known beforehand, but those of the source and windows that are too long
for the data.

The source records what it is asked, so that asking is part of the state; whatever else it does with
its state is left open. Faults are lists in the order in which the checks come, and a request fails
with the first. -/
theorem requests_ask_once [TDistribution] (source : Source (StateM σ)) (settings : Settings)
    (scope : Scope) :
    (∀ text, AsksOnce source scope.query (faultsSingle text scope) (faultsOn settings [text])
      (evaluate (recorded source) settings text scope)) ∧
    (∀ factors, AsksOnce source scope.query (faultsCombination factors scope)
      (faultsOn settings (factors.map (·.expression)))
      (combine (recorded source) settings factors scope)) ∧
    ∀ texts panel fault, fault ∈ faultsOn settings texts panel →
      settings.strictWindows = true ∧ ∃ f n, (panel.size : ℤ) < n ∧
        fault = .window ⟨f, .beyondPanel n panel.size⟩ := by
  -- both kinds are checks followed by one fetch; they differ in what they check
  refine ⟨fun text => ?_, fun factors => ?_, fun _ _ _ => exists_of_mem_faultsOn⟩
  · refine asksOnce_fetching source scope.query (reports_checkSingle settings text scope) ?_
    rintro ⟨e, config⟩ hchecked panel
    obtain ⟨e', he, hchecked⟩ := exists_of_bind_eq_ok hchecked
    obtain ⟨config', -, hchecked⟩ := exists_of_bind_eq_ok hchecked
    cases hchecked
    exact (reports_factorOn he settings panel).map _
  · refine asksOnce_fetching source scope.query
      (reports_checkCombination settings factors scope) ?_
    rintro ⟨es, config⟩ hchecked panel
    obtain ⟨hes, -⟩ := forall₂_of_checkCombination hchecked
    rw [← flatMap_faultsOn, List.flatMap_map]
    exact (Reports.mapM (hes.imp fun f e he => reports_factorOn he settings panel)).map _

end Study

end FactorStudy
