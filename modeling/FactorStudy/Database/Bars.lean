import FactorStudy.Database.Basic
import FactorStudy.Study.Memory
import FactorStudy.Time.Reader

/-!
# Bars in a database

A panel is inserted as a whole or not at all. A bar replaces an earlier one of the same symbol, bar
length and time. Bars come back in the order of their times, within bounds, where both order and
bounds are those of the texts: times are kept to the second.
-/

namespace FactorStudy

/-- The row of a bar. -/
def BarRow.ofBar (symbol : String) (interval : Interval) (b : Bar Float) : Outcome BarRow := do
  let column := Database.column Database.barTable
  return {
    symbol
    interval := interval.text
    timestamp := b.timestamp.columnText
    «open» := ← column "open" b.open
    high := ← column "high" b.high
    low := ← column "low" b.low
    close := ← column "close" b.close
    volume := ← column "volume" b.volume }

/-- The bar in a row. -/
def BarRow.bar (r : BarRow) : Outcome (Bar Float) :=
  match Timestamp.readColumn? r.timestamp with
  | some t => .ok ⟨t, r.open, r.high, r.low, r.close, r.volume⟩
  | none => .error (.query (.unreadableTime 0))

/-- Whether two rows are about the same bar. -/
def BarRow.sameKey (a b : BarRow) : Bool :=
  a.symbol == b.symbol && a.interval == b.interval && a.timestamp == b.timestamp

/-- Whether a row is asked for. -/
def BarRow.answers (r : BarRow) (q : Query) : Bool :=
  r.symbol == q.symbol && r.interval == q.interval.text
    && q.start.all (fun t => decide (t.columnText ≤ r.timestamp))
    && q.finish.all (fun t => decide (r.timestamp ≤ t.columnText))

namespace Database

/-- The database with one more bar. -/
def insertBar (symbol : String) (interval : Interval) (db : Database) (b : Bar Float) :
    Outcome Database := do
  let rows ← rows barTable db.bars
  let row ← BarRow.ofBar symbol interval b
  return { db with bars := some (replace row.sameKey row rows) }

/-- The database with the bars of a panel. -/
def insertPanel (db : Database) (p : Panel Float) : Outcome Database :=
  p.bars.foldlM (insertBar p.symbol p.interval) db

/-- The panel that is asked for. -/
def fetch (db : Database) (q : Query) : Outcome (Panel Float) := do
  let rows ← rows barTable db.bars
  let found := (rows.filter (·.answers q)).mergeSort fun a b => decide (a.timestamp ≤ b.timestamp)
  let bars ← found.mapM BarRow.bar
  q.panelOf bars

/-- The symbols and bar lengths for which there are bars. -/
def listPanels (db : Database) : Outcome Listing := do
  let rows ← rows barTable db.bars
  return Listing.ofPairs (rows.map fun r => (r.symbol, r.interval))

end Database

end FactorStudy
