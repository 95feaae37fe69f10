import FactorStudy.Database.Basic
import FactorStudy.Json.Reader
import FactorStudy.Json.Writer

/-!
# Databases as text

The form in which a database stands in a file: an object with one member for each table there is,
where a row is the list of its columns. Numbers are written as strings, since they may be infinite.
-/

namespace FactorStudy

open Json

namespace Json

/-- A number of a table. -/
def ofColumn (x : Float) : Json := string (Decimal.plain x)

def asColumn? (j : Json) : Option Float :=
  j.asString?.bind fun s => (Decimal.readFloat s.toList).toOption

end Json

def BarRow.toJson (r : BarRow) : Json :=
  array [string r.symbol, string r.interval, string r.timestamp, ofColumn r.open, ofColumn r.high,
    ofColumn r.low, ofColumn r.close, ofColumn r.volume]

def BarRow.ofJson? : Json → Option BarRow
  | array [symbol, interval, timestamp, «open», high, low, close, volume] => do
    return ⟨← symbol.asString?, ← interval.asString?, ← timestamp.asString?, ← «open».asColumn?,
      ← high.asColumn?, ← low.asColumn?, ← close.asColumn?, ← volume.asColumn?⟩
  | _ => none

def ReportRow.toJson (r : ReportRow) : Json :=
  array [string r.id, string r.name, string r.description, ofOption string r.expression,
    string r.timestamp, ofColumn r.score, ofColumn r.icMean, ofColumn r.sharpe,
    ofColumn r.sortino, ofColumn r.winRate, bool r.isValidFactor, string r.payload]

def ReportRow.ofJson? : Json → Option ReportRow
  | array [id, name, description, expression, timestamp, score, icMean, sharpe, sortino, winRate,
      isValid, payload] => do
    return ⟨← id.asString?, ← name.asString?, ← description.asString?,
      ← expression.asOption? asString?, ← timestamp.asString?, ← score.asColumn?,
      ← icMean.asColumn?, ← sharpe.asColumn?, ← sortino.asColumn?, ← winRate.asColumn?,
      ← isValid.asBool?, ← payload.asString?⟩
  | _ => none

namespace Database

/-- The member for a table, if there is one. -/
def tableMember {α : Type} (name : String) (f : α → Json) :
    Option (List α) → List (String × Json)
  | some rows => [(name, array (rows.map f))]
  | none => []

def toText (db : Database) : String :=
  (object (tableMember barTable BarRow.toJson db.bars ++
    tableMember reportTable ReportRow.toJson db.reports)).compact

/-- A table of a database, which need not be there. -/
def readTable? {α : Type} (members : List (String × Json)) (name : String)
    (f : Json → Option α) : Option (Option (List α)) :=
  match members.lookup name with
  | some j => (j.asList? f).map some
  | none => some none

/-- The database in the text of a file. -/
def ofText? (s : String) : Option Database :=
  match Json.read? s with
  | some (object members) => do
    return ⟨← readTable? members barTable BarRow.ofJson?,
      ← readTable? members reportTable ReportRow.ofJson?⟩
  | _ => none

end Database

end FactorStudy
