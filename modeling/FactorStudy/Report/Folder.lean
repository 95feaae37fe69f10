import FactorStudy.Files.Folder
import FactorStudy.Report.Json
import FactorStudy.Report.Ranking

/-!
# Reports in a folder

Each report is a JSON text in a file that is named for its id. Ids of letters, digits and hyphens
name files that stay inside the folder; for any other id there is no report. A report is written to
a draft first, which then takes the place of the file, so a file is never half written; drafts are
not reports.
-/

namespace FactorStudy.ReportFolder

/-- Whether a report can have an id. -/
def isId (id : String) : Bool :=
  !id.toList.isEmpty && id.toList.all fun c => c.isAlphanum || c == '-'

/-- The name of the file of a report. -/
def fileName (id : String) : String := id ++ ".json"

/-- The name of the draft of a report. -/
def draftName (id : String) : String := id ++ ".json.tmp"

/-- Whether a name is that of a file of a report: it ends as such, after something else. -/
def isReportName (name : String) : Bool :=
  ".json".toList.isSuffixOf name.toList && 5 < name.toList.length

/-- An operation that changes the folder when it succeeds. -/
def changing {α : Type} (es : Folder) (a : α) : Filed Folder → Outcome α × Folder
  | .ok after => (.ok a, after)
  | .error fault => (.error (.file fault), es)

/-- Saves a report in the place of one with the same id. -/
def save (es : Folder) (r : Report) : Outcome String × Folder :=
  if isId r.id then
    match es.write (draftName r.id) r.toJson.pretty with
    | .ok drafted => changing drafted r.id (drafted.rename (draftName r.id) (fileName r.id))
    | .error fault => (.error (.file fault), es)
  else (.error (.reportNotFound r.id), es)

/-- The failure to find a file is the failure to find its report. -/
def missing (id : String) : FileFault → Error
  | .notFound => .reportNotFound id
  | fault => .file fault

def get (es : Folder) (id : String) : Outcome Report := do
  if isId id then Report.read (← (es.read (fileName id)).mapError (missing id))
  else .error (.reportNotFound id)

/-- The summary of a report in a text, if there is one. -/
def summary? (content : String) : Option ReportSummary :=
  (Report.read content).toOption.map Report.summary

/-- The ranked summaries of all reports. Files that hold no report are passed over, but each has to
be a text. -/
def list (es : Folder) (key : SortKey) : Outcome (List ReportSummary) := do
  let files := es.filter fun e => isReportName e.1
  let contents ← (files.mapM fun e => Folder.content (some e.2)).mapError Error.file
  return rankSummaries (contents.filterMap summary?) key

def delete (es : Folder) (id : String) : Outcome Unit × Folder :=
  if isId id then
    match es.remove (fileName id) with
    | .ok after => (.ok (), after)
    | .error fault => (.error (missing id fault), es)
  else (.error (.reportNotFound id), es)

end FactorStudy.ReportFolder
