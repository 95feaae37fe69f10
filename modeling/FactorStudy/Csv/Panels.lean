import FactorStudy.Csv.Reader
import FactorStudy.Decimal.Numeral
import FactorStudy.Files.Tree
import FactorStudy.Study.Memory
import FactorStudy.Time.Reader

/-!
# Panels in files

A folder can hold panels as tables, one for each symbol and bar length, in files named for both.
The first record of a table names its columns and only its width matters. Each further record is a
bar: its time, then its values. Bars may stand in any order. A record outside the time that is asked
for need not hold numbers, but every record read must have the width of the first and a time.
-/

namespace FactorStudy.Csv

/-- What is wrong with a record of a table of bars. -/
inductive RecordFault where
  | width (number : Nat) (start : Position) (found expected : Nat)
  | time (text : String)
  | missing (column : Column)
  | number (column : Column) (fault : Decimal.NumberFault)
deriving Repr

/-- The message about a record of the table at a path. -/
def RecordFault.message (file : Path) : RecordFault → String
  | .width place start found expected =>
    "CSV parse error in " ++ file.text ++
      s!": CSV error: record {place} (line: {start.line}, byte: {start.byte}): " ++
      s!"found record with {found} fields, but the previous record has {expected} fields"
  | .time text => "invalid timestamp '" ++ text ++ "'"
  | .missing column => s!"missing {column.name} column"
  | .number column fault => s!"invalid {column.name} value: {fault.message}"

/-- The value of a column of a record, given with the place it has there. -/
def value (r : Record) (place : Nat) (c : Column) : Except RecordFault Float :=
  match r.fields[place]? with
  | none => .error (.missing c)
  | some text => (Decimal.readFloat (Text.trimBlank text.toList)).mapError (.number c)

/-- The bar of a record, when it lies in the time that is asked for. Records are numbered from 0,
and `width` is the number of columns. -/
def bar? (q : Query) (width : Nat) (r : Record) (number : Nat) :
    Except RecordFault (Option (Bar Float)) :=
  if r.fields.length ≠ width then .error (.width number r.start r.fields.length width)
  else
    let text := r.fields.headD ""
    match Timestamp.read? text with
    | none => .error (.time text)
    | some t =>
      if t.inRange q.start q.finish then do
        return some ⟨t, ← value r 1 .open, ← value r 2 .high, ← value r 3 .low, ← value r 4 .close,
          ← value r 5 .volume⟩
      else .ok none

/-- The bars of a table in the time that is asked for, in the order of its records. -/
def bars (q : Query) : List Record → Except RecordFault (List (Bar Float))
  | [] => .ok []
  | header :: rows => do
    let found ← (rows.zipIdx 1).mapM fun (r, number) => bar? q header.fields.length r number
    return found.reduceOption

/-- The panel that is asked for, from the content of a table. -/
def panel (file : Path) (content : String) (q : Query) : Outcome (Panel Float) := do
  let found ← (bars q (read content)).mapError fun fault => .database (fault.message file)
  q.panelOf (found.mergeSort fun a b => decide (a.timestamp ≤ b.timestamp))

/-- The name of the file of a panel. -/
def fileName (symbol : String) (interval : Interval) : String :=
  symbol ++ "_" ++ interval.text ++ ".csv"

/-- The panel that is asked for, from the files of a folder. -/
def fetch (t : FileTree) (folder : Path) (q : Query) : Outcome (Panel Float) := do
  let file := folder.join (.ofText (fileName q.symbol q.interval))
  if t.isFile file then panel file (← (t.read file).mapError Error.file) q
  else .error (.noData q.symbol q.interval)

/-- The symbol and the text of the bar length in the name of a file of a panel. -/
def nameParts? (name : String) : Option (String × String) :=
  if ".csv".toList.isSuffixOf name.toList then
    let stem := name.toList.take (name.toList.length - 4)
    let interval := String.ofList (stem.reverse.takeWhile (· ≠ '_')).reverse
    match stem.reverse.dropWhile (· ≠ '_') with
    | _ :: symbol@(_ :: _) =>
      if (Interval.read interval).isOk then some (String.ofList symbol.reverse, interval) else none
    | _ => none
  else none

/-- The panels in the files of a folder, with the bar lengths as the names of the files have
them. -/
def list (t : FileTree) (folder : Path) : Outcome Listing := do
  let es ← (t.folder folder).mapError Error.file
  return .ofPairs (es.filterMap fun e => nameParts? e.1)

end FactorStudy.Csv
