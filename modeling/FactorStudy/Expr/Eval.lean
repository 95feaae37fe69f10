import FactorStudy.Expr.Window
import FactorStudy.Panel.Basic
import FactorStudy.Series.Named

/-!
# Evaluating expressions

An expression is computed bottom up over the columns of a panel, each node a whole series as long
as the panel. Windows are checked before anything is computed, so evaluation itself has no error to
report. There is one way in which it can stop short of a result, which is told apart (`aborts`).
-/

namespace FactorStudy

/-- What to do about a window longer than the panel: give no values, or turn it down. -/
inductive WindowPolicy where
  | lenient | strict
deriving Repr, DecidableEq

namespace Expr

mutual

/-- The series of an expression. -/
def eval (p : Panel Float) : Expr → List Float
  | literal v => Series.clean (List.replicate p.size v)
  | column c => Series.clean (p.column c)
  | neg e => Series.negate (e.eval p)
  | binary op l r => op.apply (l.eval p) (r.eval p)
  | call f args => f.apply ((evalAll p args).take f.seriesArity) ((windowOf f args).getD 0).toNat

/-- The series of a list of expressions. -/
def evalAll (p : Panel Float) : List Expr → List (List Float)
  | [] => []
  | e :: es => e.eval p :: evalAll p es

end

mutual

/-- Whether the program stops while it computes an expression. What `eval` says of such an expression
is never seen. -/
def aborts (p : Panel Float) : Expr → Bool
  | literal _ | column _ => false
  | neg e => e.aborts p
  | binary _ l r => l.aborts p || r.aborts p
  | call f args =>
    ((abortsAll p args).take f.seriesArity).any id ||
      f.aborts ((evalAll p args).take f.seriesArity)

/-- Whether it stops at each of a list of expressions. -/
def abortsAll (p : Panel Float) : List Expr → List Bool
  | [] => []
  | e :: es => e.aborts p :: abortsAll p es

end

/-- The factor of an expression, when its windows are acceptable. -/
def evaluate (policy : WindowPolicy) (p : Panel Float) (e : Expr) :
    Except WindowError (FactorSeries Float) := do
  e.checkWindows
  if policy = .strict then e.checkPanelLength p.size
  return .ofValues (e.eval p)

end Expr

end FactorStudy
