import FactorStudy.Command.Arguments
import FactorStudy.Command.Display
import FactorStudy.Stats.StudentT
import FactorStudy.Workspace.Reports

/-!
# Running commands

A command prints to two channels, one for results and one for notes, and works on files. Running it
is a function from the files at hand to what is printed and to the files afterwards. A new report
takes its id and its time from outside. What a command has printed and written before it fails
remains.
-/

namespace FactorStudy

/-- What a command has printed, line by line, and the files as they are. -/
structure Console where
  files : FileTree
  output : List String
  notes : List String

/-- Why a run is over before its end. -/
inductive Ending where
  | failure (e : Error)
  /-- A computation could not go on. -/
  | abort

/-- A piece of a run, which may end it. -/
abbrev Work := ExceptT Ending (StateM Console)

/-- What a new report takes from outside. -/
structure Stamp where
  id : String
  now : Timestamp

namespace Work

/-- Prints lines of a result. -/
def print (lines : List String) : Work Unit :=
  modifyThe Console fun c => { c with output := c.output ++ lines }

/-- Prints a note. -/
def note (line : String) : Work Unit :=
  modifyThe Console fun c => { c with notes := c.notes ++ [line] }

/-- The files as they are. -/
def files : Work FileTree := do return (← getThe Console).files

/-- Changes the files. -/
def putFiles (t : FileTree) : Work Unit := modifyThe Console fun c => { c with files := t }

/-- Goes on with a result. -/
def ofOutcome {α : Type} : Outcome α → Work α
  | .ok a => pure a
  | .error e => throw (.failure e)

/-- Looks at the files. -/
def looking {α : Type} (f : FileTree → Outcome α) : Work α := do ofOutcome (f (← files))

/-- Changes the files, or fails and leaves them. -/
def replacing (f : FileTree → Outcome FileTree) : Work Unit := do putFiles (← looking f)

/-- Changes the files, also when it fails. -/
def changing {α : Type} (f : FileTree → Outcome α × FileTree) : Work α := do
  let (result, t) := f (← files)
  putFiles t
  ofOutcome result

end Work

open FactorStudy.Work

/-- The store of panels that is configured, ready for use. -/
def openPrices (c : Config) : Work PriceStore := do
  let store ← ofOutcome c.priceStore
  changing fun t => store.prepare t
  return store

/-- The store of reports that is configured, ready for use. -/
def openReports (c : Config) : Work ReportStore := do
  let store ← ofOutcome c.reportStore
  changing fun t => store.prepare t
  return store

/-- A store of panels as a source of prices for the factors of texts. If the program stops while it
computes them on the panel, it stops here: nothing is printed or written in between. -/
def source (store : PriceStore) (settings : Settings) (texts : List String) : Source Work :=
  fun q => do
    let found := store.fetch (← files) q
    match found with
    | .ok panel => if Study.aborts settings texts panel then throw .abort
    | .error _ => pure ()
    return found

/-- Goes on with a result; where the text of an expression is at fault, shows the place first. -/
def showingPlace {α : Type} (expression : String) : Outcome α → Work α
  | .ok a => pure a
  | .error e => do
    match e with
    | .parse fault => note (fault.inContext expression)
    | _ => pure ()
    throw (.failure e)

/-- Writes a result to a file, if one is asked for. -/
def writeResult (path : Option Path) (result : Json) : Work Unit := do
  match path with
  | none => pure ()
  | some path =>
    replacing fun t => (t.write path result.pretty).mapError Error.file
    note ("Result written to " ++ path.text)

/-- Saves a result as a report, if a name for it is given. -/
def saveResult (c : Config) (stamp : Stamp) (order : StudyOrder) (expression : Option String)
    (data : ReportData) : Work Unit := do
  match order.save with
  | none => pure ()
  | some name =>
    let store ← openReports c
    let report : Report := ⟨stamp.id, name, order.description, expression, stamp.now, data⟩
    let id ← changing fun t => store.save t report
    note ("Saved report " ++ id)

def runEvaluate (c : Config) (stamp : Stamp) (expression : String) (order : StudyOrder) :
    Work Unit := do
  let settings ← ofOutcome (Settings.ofConfig c)
  let store ← openPrices c
  let found ← Study.evaluate (source store settings [expression]) settings expression order.scope
  let result ← showingPlace expression found
  print (Display.metrics expression result.metrics)
  writeResult order.output result.toJson
  saveResult c stamp order (some expression) (.single result)

def runCombine (c : Config) (stamp : Stamp) (factors : List WeightedFactor) (order : StudyOrder) :
    Work Unit := do
  let settings ← ofOutcome (Settings.ofConfig c)
  let store ← openPrices c
  let prices := source store settings (factors.map (·.expression))
  let combined ← ofOutcome (← Study.combine prices settings factors order.scope)
  print (Display.metrics (Display.combinationLabel factors) combined.result.metrics)
  print (combined.factorDetails.map Display.detail)
  writeResult order.output combined.toJson
  saveResult c stamp order none (.combination combined)

def runSymbols (c : Config) : Work Unit := do
  let store ← openPrices c
  let listing ← looking fun t => store.list t
  if listing.isEmpty then note "No symbols found"
  print (listing.map fun (name, texts) => Display.symbol name texts)

def runList (c : Config) (key : SortKey) (limit : Option Nat) : Work Unit := do
  let store ← openReports c
  let rankings := Rankings.top (← looking fun t => store.list t key) limit
  if rankings.total = 0 then note "No saved reports"
  else note s!"Showing {rankings.reports.length} of {rankings.total} reports"
  print (rankings.reports.map Display.summary)

def runShow (c : Config) (id : String) : Work Unit := do
  let store ← openReports c
  let report ← looking fun t => store.get t id
  print [report.toJson.pretty]

def runDelete (c : Config) (id : String) : Work Unit := do
  let store ← openReports c
  changing fun t => store.delete t id
  note ("Deleted report " ++ id)

/-- Runs a command under a configuration. -/
def Command.run (c : Config) (stamp : Stamp) : Command → Work Unit
  | evaluate expression order => runEvaluate c stamp expression order
  | combine factors order => do
    runCombine c stamp (← ofOutcome (factors.mapM WeightedFactor.read)) order
  | check expression => do
    let e ← showingPlace expression (Expr.check expression)
    print [e.render]
  | functions => print (Builtin.registry.map fun (name, f) => Display.function name f)
  | symbols => runSymbols c
  | listReports key limit => runList c key limit
  | showReport id => runShow c id
  | deleteReport id => runDelete c id

/-- Whether a text names a level of detail for logs, in words or by its number. -/
def isLogLevel (s : String) : Bool :=
  (Decimal.readCount? s.toList).any (fun n => 1 ≤ n && n ≤ 5)
    || ["error", "warn", "info", "debug", "trace"].contains
      (String.ofList (s.toList.map Char.toLower))

/-- Runs a command line: reads the configuration, minds the level for logs, and then runs the
command. -/
def Invocation.work (i : Invocation) (stamp : Stamp) : Work Unit := do
  let c ←
    match i.config with
    | some path => looking fun t => t.config path
    | none => pure Config.empty
  match i.logLevel.or (c.get? "log" "level") with
  | some level => if !isLogLevel level then note "warning: unknown log level, using info"
  | none => pure ()
  i.command.run c stamp

/-- What is left of a run: its exit code and the console. -/
structure Reply where
  exitCode : Nat
  console : Console

/-- The exit code of a run that was stopped. -/
def abortCode : Nat := 101

/-- Runs a command line on the files at hand. -/
def Invocation.run (i : Invocation) (stamp : Stamp) (files : FileTree) : Reply :=
  match StateT.run (ExceptT.run (i.work stamp)) ⟨files, [], []⟩ with
  | (.ok (), console) => ⟨0, console⟩
  | (.error (.failure e), console) =>
    ⟨e.exitCode, { console with notes := console.notes ++ ["error: " ++ e.message] }⟩
  | (.error .abort, console) => ⟨abortCode, console⟩

end FactorStudy
