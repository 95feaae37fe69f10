import FactorStudy.Expr.Parser

/-!
# Windows

The window of a call is the literal in its last place. It is a whole number because the text was
accepted, but it may be negative, 0 or absurdly large; `checkWindows` turns these down before
anything is evaluated. A window longer than the data is a different matter, which only the data
can settle.
-/

namespace FactorStudy

/-- Why a window is turned down. -/
inductive WindowFault where
  | negative (n : Int)
  | zero
  | aboveMaximum (n : Int)
  | beyondPanel (n : Int) (bars : Nat)
deriving Repr, DecidableEq

namespace Expr

/-- The longest window. -/
def maxWindow : Nat := 100000

end Expr

def WindowFault.message : WindowFault → String
  | negative n => s!"window {n} is negative"
  | zero => "window must be at least 1"
  | aboveMaximum n => s!"window {n} exceeds maximum {Expr.maxWindow}"
  | beyondPanel n bars => s!"window {n} exceeds panel length {bars}"

/-- The first faulty window of an expression, and the function it belongs to. -/
structure WindowError where
  function : Builtin
  fault : WindowFault
deriving Repr, DecidableEq

namespace Expr

/-- The number in the window's place of a call with these arguments. -/
def windowOf (f : Builtin) (args : List Expr) : Option Int :=
  if f.hasWindow then
    match args.getLast? with
    | some (.literal v) => some (Decimal.toInteger v)
    | _ => none
  else none

/-- The window of an expression that is itself a windowed call. -/
def window? : Expr → Option Int
  | call f args => windowOf f args
  | _ => none

mutual

/-- Every windowed call in the tree with its window, a call before what stands inside it and from
left to right. -/
def windows : Expr → List (Builtin × Int)
  | literal _ | column _ => []
  | neg e => e.windows
  | binary _ l r => l.windows ++ r.windows
  | call f args => ((windowOf f args).map fun n => (f, n)).toList ++ windowsAll args

/-- The windows in a list of trees. -/
def windowsAll : List Expr → List (Builtin × Int)
  | [] => []
  | e :: es => e.windows ++ windowsAll es

end

/-- What is wrong with a window whatever the data. -/
def windowFault? (f : Builtin) (n : Int) : Option WindowFault :=
  if n < 0 then some (.negative n)
  else if n = 0 ∧ ¬ f.allowsZeroWindow then some .zero
  else if (maxWindow : Int) < n then some (.aboveMaximum n)
  else none

/-- The first window for which a fault is found. -/
def firstFault (fault? : Builtin → Int → Option WindowFault) (e : Expr) :
    Except WindowError Unit :=
  match e.windows.findSome? fun (f, n) => (fault? f n).map (WindowError.mk f) with
  | some err => .error err
  | none => .ok ()

/-- Turns down windows that fit no data. -/
def checkWindows (e : Expr) : Except WindowError Unit := e.firstFault windowFault?

/-- Turns down windows longer than a panel of `bars` bars. -/
def checkPanelLength (bars : Nat) (e : Expr) : Except WindowError Unit :=
  e.firstFault fun _ n => if (bars : Int) < n then some (.beyondPanel n bars) else none

end Expr

end FactorStudy
