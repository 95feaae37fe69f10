import FactorStudy.Proofs.Backtest.Observations
import FactorStudy.Proofs.Evaluation.Safety
import FactorStudy.Proofs.Evaluation.Windowed

/-!
# One return, computed twice

The backtest takes forward returns from the closes as they are; an expression takes `ts_returns`
from closes whose infinities count as undefined. Both are the same relative change, so they can
differ only where an infinity makes a difference, and that is one case: a finite close after an
infinite one. The backtest sees all of the infinite price lost there, a return of -1, and the
expression sees nothing (`relativeChange_clean_iff`).

The horizon of an expression is a window, which has a greatest length; that of a backtest is any
machine word but 0. A backtest can therefore be given a horizon that leads past the greatest word.
Its return then ends at the earlier bar at which the sum of bar and horizon wraps around.
-/

namespace FactorStudy

open Number Double

namespace Series

end Series

namespace Returns

variable {close : List Float} {t : ℕ} {periods : UInt64} {base : Float}

end Returns

/-! ## The expression -/

namespace Expr

/-- The expression `ts_returns(close, periods)`. -/
def closeReturns (periods : ℕ) : Expr :=
  .call (.shift .returns) [.column .close, .literal (ofNat periods)]

variable {periods : ℕ}

theorem closeReturns_eq (periods : ℕ) :
    closeReturns periods = windowed (.shift .returns) [.column .close] periods := rfl

section CloseReturns

variable (h : periods ≤ maxWindow)

include h

theorem accepted_closeReturns : (closeReturns periods).Accepted := by
  rw [closeReturns_eq]
  refine accepted_windowed rfl rfl h (fun _ => rfl) fun a ha => ?_
  rw [List.mem_singleton.mp ha]
  exact ⟨rfl, nofun⟩

theorem checkWindows_closeReturns : (closeReturns periods).checkWindows = .ok () :=
  checkWindows_eq_ok_iff.mpr (accepted_closeReturns h).windows

/-- It is accepted as it is printed. -/
theorem check_closeReturns : check (closeReturns periods).render = .ok (closeReturns periods) := by
  have hshort := lt_of_le_maxWindow h
  refine check_render (accepted_closeReturns h).wellFormed ?_ ?_ (checkWindows_closeReturns h)
  · have hfinite : (ofNat periods : Float).isFinite = true := isFinite_ofNat (by omega)
    simp only [closeReturns, Expr.isFinite, allFinite, hfinite, Bool.and_self]
  · have hneg := (read_ofNat hshort).1
    simp only [closeReturns, printedNesting, printedNestingAll, hneg]
    decide

end CloseReturns

end Expr

/-! ## Forward returns -/

section Agreement

variable {panel : Panel Float} {periods : UInt64}

end Agreement

/-- The greatest horizon leads from the second bar back to the first. -/
example : Returns.forward ([1, 2, 4] : List Float) 18446744073709551615 = [nan, -0.5, -0.5] ∧
    Returns.checkedForward? ([1, 2, 4] : List Float) 18446744073709551615 = none := by
  decide +kernel

/-- An infinite price and a finite one. -/
def fallFromInfinity : Panel Float where
  symbol := "TEST"
  interval := .daily
  bars := [⟨.midnight ⟨2018, 9, 3, by decide, by decide, by decide⟩, 1, 1, 1, infinity, 0⟩,
    ⟨.midnight ⟨2018, 9, 4, by decide, by decide, by decide⟩, 1, 1, 1, 1, 0⟩]
  increasing := @increasing_of_disorder?_eq_none _ _ 0 (by decide)

end FactorStudy
