import FactorStudy.Double
import FactorStudy.Decimal.Numeral

/-!
# Bar lengths

A bar covers a positive number of minutes, hours, days or weeks. Its length decides how many bars
make a year: trading years have 252 days or 52 weeks, and a day of intraday bars has 24 hours.
-/

namespace FactorStudy

/-- The unit of a bar's length. -/
inductive BarUnit where
  | minutes | hours | days | weeks
deriving Repr, DecidableEq

/-- The length of a bar. -/
structure Interval where
  unit : BarUnit
  count : Nat
  count_pos : 0 < count
deriving DecidableEq

namespace BarUnit

def symbol : BarUnit → String
  | minutes => "m"
  | hours => "h"
  | days => "d"
  | weeks => "w"

/-- The unit of a symbol; minutes have two. -/
def named? (name : String) : Option BarUnit :=
  if name = "m" ∨ name = "min" then some minutes
  else if name = "h" then some hours
  else if name = "d" then some days
  else if name = "w" then some weeks
  else none

/-- How many units make a trading year. -/
def perYear {α : Type} [Number α] : BarUnit → α
  | minutes => 252 * 1440
  | hours => 252 * 24
  | days => 252
  | weeks => 52

end BarUnit

/-- Why a text is not a bar length. -/
inductive IntervalFault where
  | noUnit (text : String)
  | noCount (text : String)
  | zeroCount (text : String)
  | unknownUnit (text unit : String)
deriving Repr, DecidableEq

def IntervalFault.message : IntervalFault → String
  | noUnit text => "interval '" ++ text ++ "' has no unit"
  | noCount text => "interval '" ++ text ++ "' has no bar count"
  | zeroCount text => "interval '" ++ text ++ "' must have a positive bar count"
  | unknownUnit text unit => "interval '" ++ text ++ "' has unknown unit '" ++ unit ++ "'"

namespace Interval

/-- One day. -/
def daily : Interval := ⟨.days, 1, by decide⟩

/-- The main written form. -/
def text (i : Interval) : String := toString i.count ++ i.unit.symbol

/-- The number of bars in a year. -/
def periodsPerYear {α : Type} [Number α] (i : Interval) : α := i.unit.perYear / Number.ofNat i.count

/-- Reads a count, which fits 32 bits, and the unit after it. -/
def read (s : String) : Except IntervalFault Interval :=
  let t := Text.trimBlank s.toList
  let whole := String.ofList t
  let count := t.takeWhile Char.isDigit
  let unit := String.ofList (t.dropWhile Char.isDigit)
  let n := Decimal.ofDigits count
  if unit = "" then .error (.noUnit whole)
  else if count = [] ∨ Nat.pow 2 32 ≤ n then .error (.noCount whole)
  else if h : 0 < n then
    match BarUnit.named? unit with
    | some u => .ok ⟨u, n, h⟩
    | none => .error (.unknownUnit whole unit)
  else .error (.zeroCount whole)

end Interval

end FactorStudy
