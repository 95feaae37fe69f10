import FactorStudy.Database.Basic
import FactorStudy.Report.Json
import FactorStudy.Report.Ranking

/-!
# Reports in a database

A report is kept whole, as JSON, and comes back from there. Lists are made from the columns beside
it, newest first, and are then ranked; so of reports that rank equal the newest comes first.
-/

namespace FactorStudy

/-- A time as it stands in the table of reports: in the internet format, with the zone as a
number. -/
def Timestamp.zonedText (t : Timestamp) : String := t.isoText ++ "+00:00"

/-- The row of a report. -/
def ReportRow.ofReport (r : Report) : Outcome ReportRow := do
  let m := r.data.metrics
  let column := Database.column Database.reportTable
  return {
    id := r.id
    name := r.name
    description := r.description
    expression := r.expression
    timestamp := r.timestamp.zonedText
    score := ← column "score" m.score
    icMean := ← column "ic_mean" m.icMean
    sharpe := ← column "sharpe" m.sharpe
    sortino := ← column "sortino" m.sortino
    winRate := ← column "win_rate" m.winRate
    isValidFactor := m.isValidFactor
    payload := r.toJson.compact }

/-- The summary in a row. Years of more than four digits are not in the internet format. -/
def ReportRow.summary (r : ReportRow) : Outcome ReportSummary :=
  match Timestamp.internetFormat r.timestamp.toList with
  | some timestamp => .ok {
      id := r.id
      name := r.name
      description := r.description
      expression := r.expression
      timestamp
      score := r.score
      icMean := r.icMean
      sharpe := r.sharpe
      sortino := r.sortino
      winRate := r.winRate
      isValidFactor := r.isValidFactor
      rank := 0 }
  | none => .error (.query (.unreadableTime 4))

namespace Database

/-- Saves a report in the place of one with the same id. -/
def saveReport (db : Database) (r : Report) : Outcome Database := do
  let rows ← rows reportTable db.reports
  let row ← ReportRow.ofReport r
  return { db with reports := some (replace (fun other => other.id == r.id) row rows) }

/-- The ranked summaries of all reports. -/
def listReports (db : Database) (key : SortKey) : Outcome (List ReportSummary) := do
  let rows ← rows reportTable db.reports
  let newest := rows.mergeSort fun a b => decide (b.timestamp ≤ a.timestamp)
  return rankSummaries (← newest.mapM ReportRow.summary) key

def getReport (db : Database) (id : String) : Outcome Report := do
  let rows ← rows reportTable db.reports
  match rows.find? fun r => r.id == id with
  | some row => Report.read row.payload
  | none => .error (.reportNotFound id)

def deleteReport (db : Database) (id : String) : Outcome Database := do
  let rows ← rows reportTable db.reports
  if rows.any fun r => r.id == id then
    return { db with reports := some (rows.filter fun r => !(r.id == id)) }
  else .error (.reportNotFound id)

end Database

end FactorStudy
