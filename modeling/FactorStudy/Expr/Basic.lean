import FactorStudy.Expr.Builtin
import FactorStudy.Decimal.Text

/-!
# Factor expressions

An expression computes one value per bar from the columns of a price panel. The tree keeps a call
as it was written, window included: the window is the literal in the last place, and whether it is
an acceptable window is a separate question (`Expr/Window.lean`), so that a text with a window out
of range still reads as an expression and can be printed.
-/

namespace FactorStudy

/-- A column of a price panel. -/
inductive Column where
  | open | high | low | close | volume
deriving Repr, DecidableEq

namespace Column

def all : List Column := [.open, .high, .low, .close, .volume]

def name : Column → String
  | .open => "open"
  | .high => "high"
  | .low => "low"
  | .close => "close"
  | .volume => "volume"

/-- The column of a name. -/
def named? (name : String) : Option Column := all.find? fun c => c.name == name

theorem named?_name (c : Column) : named? c.name = some c := by cases c <;> decide

end Column

/-- The arithmetic operators. -/
inductive BinaryOp where
  | add | sub | mul | div | pow
deriving Repr, DecidableEq

def BinaryOp.symbol : BinaryOp → String
  | .add => "+"
  | .sub => "-"
  | .mul => "*"
  | .div => "/"
  | .pow => "**"

inductive Expr where
  | literal (value : Float)
  | column (c : Column)
  | neg (operand : Expr)
  | binary (op : BinaryOp) (left right : Expr)
  | call (f : Builtin) (args : List Expr)

namespace Expr

mutual

/-- The printed form: fully parenthesized, with the main names of the functions. A literal with
its sign bit set is parenthesized too, so that it reads back as a literal. -/
def render : Expr → String
  | literal v => if Decimal.isNegative v then "(" ++ Decimal.plain v ++ ")" else Decimal.plain v
  | column c => c.name
  | neg e => "(-" ++ e.render ++ ")"
  | binary op l r => "(" ++ l.render ++ " " ++ op.symbol ++ " " ++ r.render ++ ")"
  | call f args => f.name ++ "(" ++ ", ".intercalate (renderAll args) ++ ")"

/-- The printed forms of a list of arguments. -/
def renderAll : List Expr → List String
  | [] => []
  | e :: es => e.render :: renderAll es

end

mutual

/-- Whether two trees have the same shape and names, and numerically equal literals. -/
def same : Expr → Expr → Bool
  | literal v, literal w => v == w
  | column c, column d => c == d
  | neg a, neg b => same a b
  | binary o a b, binary p c d => o == p && same a c && same b d
  | call f as, call g bs => f == g && sameAll as bs
  | _, _ => false

/-- Whether two lists of trees agree item by item. -/
def sameAll : List Expr → List Expr → Bool
  | [], [] => true
  | a :: as, b :: bs => same a b && sameAll as bs
  | _, _ => false

end

mutual

/-- The height of a tree: 1 for a literal or a column, and one more than the highest child. -/
def height : Expr → Nat
  | literal _ | column _ => 1
  | neg e => e.height + 1
  | binary _ l r => max l.height r.height + 1
  | call _ args => heightAll args + 1

/-- The greatest height in a list, 0 for none. -/
def heightAll : List Expr → Nat
  | [] => 0
  | e :: es => max e.height (heightAll es)

end

end Expr

end FactorStudy
