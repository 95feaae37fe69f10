import FactorStudy.Error

/-!
# Databases

A database has a table of bars and a table of reports, either of which may be missing. A statement
on a missing table fails, and a statement that fails changes nothing. Rows stay in the order in
which they were written; no two rows of a table have the same key.

Times are kept as text and are compared as text. A column of numbers holds no undefined number, and
does not tell the two zeros apart.
-/

namespace FactorStudy

/-- A bar in a table. Its key is the symbol, the bar length and the time. -/
structure BarRow where
  symbol : String
  interval : String
  timestamp : String
  «open» : Float
  high : Float
  low : Float
  close : Float
  volume : Float

/-- A report in a table, under its id. Beside the whole report as JSON stand the columns that a list
is made from. -/
structure ReportRow where
  id : String
  name : String
  description : String
  expression : Option String
  timestamp : String
  score : Float
  icMean : Float
  sharpe : Float
  sortino : Float
  winRate : Float
  isValidFactor : Bool
  payload : String

structure Database where
  bars : Option (List BarRow)
  reports : Option (List ReportRow)

namespace Database

/-- The name of the table of bars. -/
def barTable : String := "ohlcv"

/-- The name of the table of reports. -/
def reportTable : String := "reports"

/-- A database without tables. -/
def empty : Database := ⟨none, none⟩

/-- The database with both tables; those it lacked are empty. -/
def initialized (db : Database) : Database := ⟨some (db.bars.getD []), some (db.reports.getD [])⟩

/-- Whether a database has both tables. -/
def isReady (db : Database) : Bool := db.bars.isSome && db.reports.isSome

/-- The rows of a table, when there is such a table. -/
def rows {α : Type} (table : String) : Option (List α) → Outcome (List α)
  | some rows => .ok rows
  | none => .error (.query (.missingTable table))

/-- The table with a row in the place of the one with the same key. -/
def replace {α : Type} (sameKey : α → Bool) (row : α) (rows : List α) : List α :=
  rows.filter (fun r => !sameKey r) ++ [row]

/-- A number as a column of numbers holds it. -/
def column (table name : String) (x : Float) : Outcome Float :=
  if x.isNaN then .error (.query (.missingValue table name))
  else if x == 0 then .ok 0
  else .ok x

end Database

end FactorStudy
