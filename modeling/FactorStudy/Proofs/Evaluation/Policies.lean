import FactorStudy.Proofs.Double.TotalOrder
import FactorStudy.Proofs.Study.Requests

/-!
# Lenient and strict evaluation

Which windows an evaluation turns down is said here of the tree and of the numbers in it, node by
node in preorder. The window of a windowed call is the whole number in its last place (`HasWindow`).
The check goes by the 64-bit integer nearest to it, which lies within the limits when the number
does (`windowFault?_capped`), and by a list of windows that is collected apart from the evaluation;
`reports_firstFault` says that this list is in preorder.

An evaluation fails with a window out of range if there is one, and otherwise, under the strict
policy, with a window longer than the panel. In both cases it is the first such window.
-/

namespace FactorStudy

open Double

/-! ## The integer in a whole double -/

/-- An integer at the nearer end of the 64-bit range, if it lies outside. -/
def capped (n : ℤ) : ℤ := max (-2 ^ 63) (min n (2 ^ 63 - 1))

/-- A whole double stands for an integer, which is read from it as far as 64 bits go. -/
theorem exists_integer {x : Float} (hx : Decimal.isWhole x = true) :
    ∃ n : ℤ, value x = n ∧ Decimal.toInteger x = capped n := by
  obtain ⟨hfinite, hdvd⟩ := Bool.and_eq_true_iff.mp hx
  have hdef : x.isNaN = false := isNaN_of_isFinite hfinite
  -- a whole magnitude is its own floor
  have hmagnitude : (Decimal.dyadic x).value = (Decimal.dyadic x).floor := by
    have hden : ((Decimal.dyadic x).den : ℚ) ≠ 0 := by
      exact_mod_cast Nat.ne_of_gt (Decimal.den_pos _)
    rw [Decimal.Dyadic.value_eq_div, div_eq_iff hden, Decimal.Dyadic.floor]
    exact_mod_cast (Nat.div_mul_cancel (Nat.dvd_of_mod_eq_zero (beq_iff_eq.mp hdvd))).symm
  have hsign : value x = signed (signOf x) (Decimal.dyadic x).value := value_eq_dyadic hfinite
  have htop : Nat.pow 2 63 = 2 ^ 63 := rfl
  unfold signOf at hsign
  unfold Decimal.toInteger capped
  rw [hdef, hfinite, hsign, hmagnitude, htop]
  cases Decimal.isNegative x with
  | true =>
    refine ⟨-(Decimal.dyadic x).floor, by simp [signed], ?_⟩
    simp only [Bool.false_eq_true, if_false, if_true]
    omega
  | false =>
    refine ⟨(Decimal.dyadic x).floor, by simp [signed], ?_⟩
    simp only [Bool.false_eq_true, if_false, if_true]
    omega

namespace Expr

/-! ## The windows of a tree -/

/-- The expression is a call of a windowed function, with the window `n`. -/
inductive HasWindow : Expr → Builtin → ℤ → Prop
  | call {f : Builtin} {args : List Expr} {v : Float} {n : ℤ} (hf : f.hasWindow = true)
      (hlast : args.getLast? = some (literal v)) (hv : value v = n) : HasWindow (call f args) f n

/-- What all windows of some expressions have in common, with the functions they belong to. -/
def AllWindows (P : Builtin → ℤ → Prop) (ds : List Expr) : Prop :=
  ∀ d ∈ ds, ∀ f n, HasWindow d f n → P f n

/-- The windows that suit some data: they are not negative and not too long, and 0 only for a
shift. -/
def InRange (f : Builtin) (n : ℤ) : Prop :=
  0 ≤ n ∧ n ≤ 100000 ∧ (1 ≤ n ∨ ∃ s, f = .shift s)

theorem allowsZeroWindow_iff (f : Builtin) : f.allowsZeroWindow = true ↔ ∃ s, f = .shift s := by
  cases f <;> simp [Builtin.allowsZeroWindow]

theorem windowFault?_capped {f : Builtin} {n : ℤ} :
    windowFault? f (capped n) = none ↔ InRange f n := by
  -- capping leaves windows in range as they are and keeps the others out of it
  have hmax : (maxWindow : ℤ) = 100000 := rfl
  unfold windowFault? InRange capped
  rw [← allowsZeroWindow_iff, hmax]
  split_ifs with hneg hzero hlong
  · exact iff_of_false nofun (by omega)
  · refine iff_of_false nofun ?_
    rintro ⟨h0, -, h1 | hallow⟩
    · omega
    · exact hzero.2 hallow
  · exact iff_of_false nofun (by omega)
  · refine iff_of_true rfl ⟨by omega, by omega, ?_⟩
    by_cases h1 : 1 ≤ n
    · exact Or.inl h1
    · refine Or.inr (not_not.mp fun hallow => hzero ⟨by omega, hallow⟩)

theorem beyond?_capped {bars : ℕ} {f : Builtin} {n : ℤ} (hn : InRange f n) :
    beyond? bars f (capped n) = if n ≤ bars then none else some (.beyondPanel n bars) := by
  obtain ⟨h0, hmax, -⟩ := hn
  have hcapped : capped n = n := by
    unfold capped
    omega
  rw [beyond?, hcapped]
  split_ifs
  · omega
  · rfl
  · rfl
  · omega

theorem HasWindow.inj {d : Expr} {f g : Builtin} {n m : ℤ} (h : HasWindow d f n)
    (h' : HasWindow d g m) : g = f ∧ m = n := by
  cases h with
  | call _ hlast hv =>
    cases h' with
    | call _ hlast' hv' =>
      obtain rfl := literal.inj (Option.some.inj (hlast.symm.trans hlast'))
      exact ⟨rfl, by exact_mod_cast hv'.symm.trans hv⟩

/-- A windowed call in a well-formed tree has a window. -/
theorem exists_hasWindow {f : Builtin} {args : List Expr} (h : (call f args).wellFormed = true)
    (hf : f.hasWindow = true) :
    ∃ n, HasWindow (call f args) f n ∧ windowOf f args = some (capped n) := by
  obtain ⟨⟨-, hwindow⟩, -⟩ := Grammar.wellFormed_call.mp h
  have hlast := hwindow hf
  cases hargs : args.getLast? with
  | none => rw [hargs] at hlast; cases hlast
  | some last =>
    rw [hargs] at hlast
    -- a window is a whole number, and no other expression counts as one
    cases last with
    | literal v =>
      obtain ⟨n, hv, hinteger⟩ := exists_integer hlast
      refine ⟨n, .call hf hargs hv, ?_⟩
      rw [windowOf, if_pos hf, hargs, ← hinteger]
    | _ => cases hlast

/-- A rule for windows judges a node by its window, if it has one. -/
theorem window_cases {d : Expr} (hd : d.wellFormed = true) :
    (∀ f n, ¬ HasWindow d f n) ∧ (∀ fault?, windowError? fault? d = none) ∨
      ∃ f n, HasWindow d f n ∧
        ∀ fault?, windowError? fault? d = (fault? f (capped n)).map (WindowError.mk f) := by
  cases d with
  | call f args =>
    by_cases hf : f.hasWindow = true
    · obtain ⟨n, hwindow, hof⟩ := exists_hasWindow hd hf
      refine Or.inr ⟨f, n, hwindow, fun fault? => ?_⟩
      rw [windowError?, hof, Option.bind_some]
    · refine Or.inl ⟨fun g m hm => ?_, fun fault? => ?_⟩
      · cases hm with
        | call hf' => exact hf hf'
      · rw [windowError?, windowOf, if_neg hf, Option.bind_none]
  | _ =>
    -- only calls have windows
    refine Or.inl ⟨?_, fun _ => rfl⟩
    rintro f n ⟨⟩

theorem wellFormed_of_mem_nodes {e d : Expr} (he : e.wellFormed = true) (hd : d ∈ e.nodes) :
    d.wellFormed = true := by
  refine forall_mem_nodes (P := fun e => e.wellFormed = true) (fun e h => ?_) (fun op l r h => ?_)
    (fun f args h => ?_) he d hd
  · rw [Expr.wellFormed, Bool.and_eq_true] at h
    exact h.2
  · rw [Expr.wellFormed, Bool.and_eq_true] at h
    exact h
  · exact allWellFormed_iff.mp (Grammar.wellFormed_call.mp h).2

theorem exists_hasWindow_of_mem_nodes {e : Expr} {f : Builtin} {args : List Expr}
    (he : e.wellFormed = true) (hnode : call f args ∈ e.nodes) (hf : f.hasWindow = true) :
    ∃ n, HasWindow (call f args) f n := by
  obtain ⟨n, hwindow, -⟩ := exists_hasWindow (wellFormed_of_mem_nodes he hnode) hf
  exact ⟨n, hwindow⟩

/-- A check of the windows passes when no window has a fault, and otherwise finds the first one. -/
theorem firstFault_spec {e : Expr} (he : e.wellFormed = true)
    (fault? : Builtin → ℤ → Option WindowFault) :
    (e.firstFault fault? = .ok () ∧ AllWindows (fun f n => fault? f (capped n) = none) e.nodes) ∨
      ∃ f n fault before d after, e.firstFault fault? = .error ⟨f, fault⟩ ∧
        e.nodes = before ++ d :: after ∧ HasWindow d f n ∧ fault? f (capped n) = some fault ∧
        AllWindows (fun f n => fault? f (capped n) = none) before := by
  have hnone : ∀ ds : List Expr, (∀ d ∈ ds, d ∈ e.nodes) →
      (∀ d ∈ ds, windowError? fault? d = none) →
      AllWindows (fun f n => fault? f (capped n) = none) ds := by
    intro ds hmem herrors d hd f n hwindow
    have hd' := wellFormed_of_mem_nodes he (hmem d hd)
    rcases window_cases hd' with ⟨hno, -⟩ | ⟨g, m, hwindow', herr⟩
    · exact absurd hwindow (hno f n)
    · obtain ⟨rfl, rfl⟩ := hwindow.inj hwindow'
      exact Option.map_eq_none_iff.mp ((herr fault?).symm.trans (herrors d hd))
  -- the search reports the first of all errors in the order of the nodes
  have hreports := reports_firstFault fault? e
  generalize herrors : e.windowErrors fault? = errors at hreports
  generalize e.firstFault fault? = outcome at hreports
  cases hreports with
  | passes a =>
    exact Or.inl ⟨rfl, hnone e.nodes (fun _ h => h) (List.filterMap_eq_nil_iff.mp herrors)⟩
  | fails err others =>
    -- what stands before the first error has none
    obtain ⟨before, d, after, hnodes, hbefore, hd, -⟩ := List.filterMap_eq_cons_iff.mp herrors
    have hmem : d ∈ e.nodes := by
      rw [hnodes]
      exact List.mem_append_right _ List.mem_cons_self
    right
    rcases window_cases (wellFormed_of_mem_nodes he hmem) with ⟨-, hno⟩ | ⟨f, n, hwindow, herr⟩
    · rw [hno] at hd
      cases hd
    · rw [herr] at hd
      obtain ⟨fault, hfault, rfl⟩ := Option.map_eq_some_iff.mp hd
      refine ⟨f, n, fault, before, d, after, rfl, hnodes, hwindow, hfault, hnone before ?_ hbefore⟩
      intro c hc
      rw [hnodes]
      exact List.mem_append_left _ hc

/-! ## The two policies -/

theorem evaluate_of_range_fault {e : Expr} {err : WindowError} (h : e.checkWindows = .error err)
    (policy : WindowPolicy) (p : Panel Float) : e.evaluate policy p = .error err := by
  unfold evaluate
  rw [h]
  rfl

theorem evaluate_strict_eq {e : Expr} (h : e.checkWindows = .ok ()) (p : Panel Float) :
    e.evaluate .strict p =
      (e.checkPanelLength p.size).map fun _ => .ofValues (e.eval p) := by
  unfold evaluate
  rw [h]
  cases e.checkPanelLength p.size <;> rfl

/-- A windowed call of `f` is the first in the tree whose window, `n`, breaks a rule. -/
def FirstBreach (P : Builtin → ℤ → Prop) (e : Expr) (f : Builtin) (n : ℤ) : Prop :=
  ∃ before d after, e.nodes = before ++ d :: after ∧ HasWindow d f n ∧ ¬ P f n ∧ AllWindows P before

theorem not_allWindows_of_firstBreach {P : Builtin → ℤ → Prop} {e : Expr} {f : Builtin} {n : ℤ}
    (h : FirstBreach P e f n) : ¬ AllWindows P e.nodes := by
  obtain ⟨before, d, after, hnodes, hwindow, hbreach, -⟩ := h
  intro hall
  refine hbreach (hall d ?_ f n hwindow)
  rw [hnodes]
  exact List.mem_append_right _ List.mem_cons_self

/-- The first check passes when all windows are in range, and else finds the first that is not. -/
theorem checkWindows_spec {e : Expr} (he : e.wellFormed = true) :
    (e.checkWindows = .ok () ∧ AllWindows InRange e.nodes) ∨
      ∃ err n, e.checkWindows = .error err ∧ FirstBreach InRange e err.function n ∧
        windowFault? err.function (capped n) = some err.fault := by
  rcases firstFault_spec he windowFault? with ⟨hok, hall⟩ |
    ⟨f, n, fault, before, d, after, herr, hnodes, hwindow, hfault, hbefore⟩
  · exact Or.inl ⟨hok, fun d hd f n h => windowFault?_capped.mp (hall d hd f n h)⟩
  · refine Or.inr ⟨⟨f, fault⟩, n, herr, ⟨before, d, after, hnodes, hwindow, fun h => ?_,
      fun c hc g m h => windowFault?_capped.mp (hbefore c hc g m h)⟩, hfault⟩
    rw [windowFault?_capped.mpr h] at hfault
    cases hfault

/-- With all windows in range, the second check does the same for those longer than the panel. -/
theorem checkPanelLength_spec {e : Expr} (he : e.wellFormed = true)
    (hrange : AllWindows InRange e.nodes) (bars : ℕ) :
    (e.checkPanelLength bars = .ok () ∧ AllWindows (fun _ n => n ≤ bars) e.nodes) ∨
      ∃ err n, e.checkPanelLength bars = .error err ∧
        FirstBreach (fun _ n => n ≤ bars) e err.function n ∧ err.fault = .beyondPanel n bars := by
  -- with windows in range the only fault left is that the panel is shorter
  have hfits : ∀ {f n}, InRange f n → (beyond? bars f (capped n) = none ↔ n ≤ bars) := by
    intro f n hn
    rw [beyond?_capped hn, ite_eq_left_iff]
    simp
  rcases firstFault_spec he (beyond? bars) with ⟨hok, hall⟩ |
    ⟨f, n, fault, before, d, after, herr, hnodes, hwindow, hfault, hbefore⟩
  · exact Or.inl ⟨hok, fun d hd f n h => (hfits (hrange d hd f n h)).mp (hall d hd f n h)⟩
  · have hmem : ∀ c, c ∈ before ∨ c = d → c ∈ e.nodes := by
      rw [hnodes]
      rintro c (hc | rfl)
      · exact List.mem_append_left _ hc
      · exact List.mem_append_right _ List.mem_cons_self
    have hn := hrange d (hmem d (Or.inr rfl)) f n hwindow
    rw [beyond?_capped hn] at hfault
    split at hfault
    · cases hfault
    · rename_i hlong
      cases hfault
      refine Or.inr ⟨_, n, herr, ⟨before, d, after, hnodes, hwindow, hlong, ?_⟩, rfl⟩
      intro c hc g m h
      exact (hfits (hrange c (hmem c (Or.inl hc)) g m h)).mp (hbefore c hc g m h)

/-- What evaluation on a panel makes of the windows in a tree. -/
structure Policed (e : Expr) (p : Panel Float) : Prop where
  /-- Every windowed call in the tree has a window. -/
  windowed : ∀ f args, call f args ∈ e.nodes → f.hasWindow = true →
    ∃ n, HasWindow (call f args) f n
  /-- There is a series under the lenient policy exactly when all windows are in range, -/
  lenient_iff : (∃ s, e.evaluate .lenient p = .ok s) ↔ AllWindows InRange e.nodes
  /-- and under the strict one exactly when none is longer than the panel either. -/
  strict_iff : (∃ s, e.evaluate .strict p = .ok s) ↔
    AllWindows InRange e.nodes ∧ AllWindows (fun _ n => n ≤ p.size) e.nodes
  /-- It is the same series. -/
  lenient_of_strict : ∀ s, e.evaluate .strict p = .ok s → e.evaluate .lenient p = .ok s
  /-- When a window is out of range, both fail with the first that is. -/
  out_of_range : ¬ AllWindows InRange e.nodes → ∀ policy, ∃ err n,
    e.evaluate policy p = .error err ∧ FirstBreach InRange e err.function n ∧
      windowFault? err.function (capped n) = some err.fault
  /-- When none is, only the strict one fails, with the first that is longer than the panel. -/
  too_long : AllWindows InRange e.nodes → ∀ policy err, e.evaluate policy p = .error err →
    policy = .strict ∧ ∃ n, FirstBreach (fun _ n => n ≤ p.size) e err.function n ∧
      err.fault = .beyondPanel n p.size

/-- **Policies.** Of every tree that a text is read as, lenient evaluation turns down the windows
that suit no data, and strict evaluation those that are too long for the panel as well.

Which window is reported is settled by the order of the nodes, a call before what is inside it and
arguments from left to right. Both checks go through the tree in this order, and a range that is
wrong anywhere is reported before a window that is too long for the panel. -/
theorem policed_of_parse {text : String} {e : Expr} (h : parse text = .ok e) (p : Panel Float) :
    Policed e p := by
  have he := Grammar.wellFormed_of_parse h
  have hwindowed : ∀ f args, call f args ∈ e.nodes → f.hasWindow = true →
      ∃ n, HasWindow (call f args) f n := fun _ _ => exists_hasWindow_of_mem_nodes he
  -- three outcomes: every window passes both checks, only the first, or not even that
  rcases checkWindows_spec he with ⟨hok, hrange⟩ | ⟨err, n, herr, hbreach, hfault⟩
  · rcases checkPanelLength_spec he hrange p.size with
      ⟨hlength, hfits⟩ | ⟨err, n, herr, hbreach, hfault⟩
    · have hstrict : e.evaluate .strict p = .ok (.ofValues (e.eval p)) := by
        rw [evaluate_strict_eq hok, hlength]
        rfl
      have hlenient := evaluate_lenient hok p
      refine ⟨hwindowed, iff_of_true ⟨_, hlenient⟩ hrange, iff_of_true ⟨_, hstrict⟩ ⟨hrange, hfits⟩,
        fun s hs => ?_, fun hnot => absurd hrange hnot, fun _ policy err herr => ?_⟩
      · rw [hlenient, ← hstrict, hs]
      · cases policy with
        | lenient => rw [hlenient] at herr; cases herr
        | strict => rw [hstrict] at herr; cases herr
    · -- too long for the panel: only the strict policy turns it down
      have hstrict : e.evaluate .strict p = .error err := by
        rw [evaluate_strict_eq hok, herr]
        rfl
      have hlenient := evaluate_lenient hok p
      refine ⟨hwindowed, iff_of_true ⟨_, hlenient⟩ hrange, iff_of_false ?_ ?_, fun s hs => ?_,
        fun hnot => absurd hrange hnot, fun _ policy err' herr' => ?_⟩
      · rintro ⟨s, hs⟩
        rw [hstrict] at hs
        cases hs
      · exact fun hall => not_allWindows_of_firstBreach hbreach hall.2
      · rw [hstrict] at hs
        cases hs
      · cases policy with
        | lenient => rw [hlenient] at herr'; cases herr'
        | strict =>
          rw [hstrict] at herr'
          cases herr'
          exact ⟨rfl, n, hbreach, hfault⟩
  · -- out of range: both do, whatever the panel
    have hfails := evaluate_of_range_fault herr
    have hnot := not_allWindows_of_firstBreach hbreach
    have hnone : ∀ policy, ¬ ∃ s, e.evaluate policy p = .ok s := by
      rintro policy ⟨s, hs⟩
      rw [hfails] at hs
      cases hs
    exact ⟨hwindowed, iff_of_false (hnone _) hnot, iff_of_false (hnone _) fun hall => hnot hall.1,
      fun s hs => absurd ⟨s, hs⟩ (hnone _),
      fun _ policy => ⟨err, n, hfails policy p, hbreach, hfault⟩,
      fun hrange => absurd hrange hnot⟩

/-- A mean of closes, both with windows longer than three days. -/
def longMean : Expr :=
  .call (.rolling .mean) [.call (.shift .delay) [.column .close, .literal 9], .literal 20]

theorem policed_longMean :
    parse "ts_mean(ts_delay(close, 9), 20)" = .ok longMean ∧
      longMean.evaluate .strict threeDays = .error ⟨.rolling .mean, .beyondPanel 20 3⟩ ∧
      Policed longMean threeDays := by
  have hrender : longMean.render = "ts_mean(ts_delay(close, 9), 20)" := by decide +kernel
  have hcheck : check longMean.render = .ok longMean :=
    check_render (by decide +kernel) (by decide +kernel) (by decide) rfl
  have hparse : parse "ts_mean(ts_delay(close, 9), 20)" = .ok longMean :=
    hrender ▸ (check_eq_ok_iff.mp hcheck).1
  exact ⟨hparse, rfl, policed_of_parse hparse threeDays⟩

end Expr

end FactorStudy
