import FactorStudy.Database.Reports
import FactorStudy.Report.Folder
import FactorStudy.Workspace.Prices

/-!
# Where reports are kept

A configuration decides whether reports are kept in a folder or in a database. Both keep a report
under its id until it is deleted or another one with the same id is saved.
-/

namespace FactorStudy

/-- A store of reports. -/
inductive ReportStore where
  | folder (path : Path)
  | database (address : DatabaseAddress)
deriving DecidableEq, Repr

/-- The store of reports that is configured; without a word on it, a folder of reports beside the
configuration. -/
def Config.reportStore (c : Config) : Outcome ReportStore :=
  match (c.get? "reports" "backend").getD "json" with
  | "json" => .ok (.folder (.ofText ((c.get? "reports" "dir").getD "reports")))
  | "sqlite" => do return .database (← c.databaseAddress)
  | backend => .error (unknownBackend "reports" backend)

namespace ReportStore

/-- Makes a store ready for use. -/
def prepare (t : FileTree) : ReportStore → Outcome Unit × FileTree
  | folder path =>
    let (made, t) := t.makeFolder path
    (made.mapError Error.file, t)
  | database address => t.openDatabase address

/-- Saves a report in the place of one with the same id. -/
def save (t : FileTree) (r : Report) : ReportStore → Outcome String × FileTree
  | folder path => t.inside path.base fun es => ReportFolder.save es r
  | database address => t.updateDatabase address r.id fun db => db.saveReport r

/-- The ranked summaries of all reports. -/
def list (t : FileTree) (key : SortKey) : ReportStore → Outcome (List ReportSummary)
  | folder path => do ReportFolder.list (← (t.folder path).mapError Error.file) key
  | database address => do (← t.database address).listReports key

def get (t : FileTree) (id : String) : ReportStore → Outcome Report
  | folder path => do ReportFolder.get (← (t.folder path.base).mapError Error.file) id
  | database address => do (← t.database address).getReport id

def delete (t : FileTree) (id : String) : ReportStore → Outcome Unit × FileTree
  | folder path => t.inside path.base fun es => ReportFolder.delete es id
  | database address => t.updateDatabase address () fun db => db.deleteReport id

end ReportStore

end FactorStudy
