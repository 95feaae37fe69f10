import FactorStudy.Command.Run
import FactorStudy.Files.Changes
import Std.Time.DateTime.Timestamp

/-!
# The program

Reads from the disk what a command looks at, runs the command on it, prints what it printed, and
makes on the disk the changes that it made.
-/

namespace FactorStudy

/-- What is read from the disk at a path. -/
inductive Want where
  | file
  | database
  /-- The names in a folder. -/
  | names
  /-- The files in a folder with their content. -/
  | contents

/-- What a study looks at. -/
def StudyOrder.wants (o : StudyOrder) (c : Config) : List (Path × Want) :=
  let prices := match c.priceStore with
    | .ok (.files folder) =>
      [(folder.join (.ofText (Csv.fileName o.scope.query.symbol o.scope.query.interval)), .file)]
    | .ok (.database address) => (address.file.map fun p => (p, .database)).toList
    | .error _ => []
  prices ++ (o.output.map fun p => (p, .file)).toList

/-- What the store of panels is, as a whole. -/
def pricesWanted (c : Config) : List (Path × Want) :=
  match c.priceStore with
  | .ok (.files folder) => [(folder, .names)]
  | .ok (.database address) => (address.file.map fun p => (p, .database)).toList
  | .error _ => []

/-- What the store of reports is. -/
def reportsWanted (c : Config) : List (Path × Want) :=
  match c.reportStore with
  | .ok (.folder path) => [(path.base, .contents)]
  | .ok (.database address) => (address.file.map fun p => (p, .database)).toList
  | .error _ => []

/-- What a command looks at. -/
def Command.wants (c : Config) : Command → List (Path × Want)
  | evaluate _ o | combine _ o => o.wants c ++ if o.save.isSome then reportsWanted c else []
  | symbols => pricesWanted c
  | listReports .. | showReport _ | deleteReport _ => reportsWanted c
  | check _ | functions => []

/-- The path on the disk of a location. -/
def diskPath (location : List String) : String := "/" ++ "/".intercalate location

/-- The names of a path from the root of the disk, with the steps back carried out. -/
def namesOf (t : FileTree) (p : Path) : List String :=
  p.steps.foldl (fun names step =>
    if step = "" ∨ step = "." then names
    else if step = ".." then names.dropLast
    else names ++ [step]) (t.start p)

/-- The text in a file on the disk; bytes, if it is not one. -/
def readFileNode (file : String) : IO Node := do
  try
    return .text (← IO.FS.readFile file)
  catch _ => return .bytes

/-- What is on the disk at a location. -/
def readNode (location : List String) (want : Want) : IO (Option Node) := do
  let file := (← IO.currentDir) / diskPath location
  if ← file.isDir then
    let entries ← file.readDir
    let node (name : String) : IO Node := do
      let inner := location ++ [name]
      if ← ((← IO.currentDir) / diskPath inner).isDir then return .folder []
      match want with
      | .contents => readFileNode (diskPath inner)
      | _ => return .bytes
    return some (.folder (← entries.toList.mapM fun e => return (e.fileName, ← node e.fileName)))
  else if ← file.pathExists then
    match want, ← readFileNode (diskPath location) with
    | .database, .text content =>
      return some (((Database.ofText? content).map Node.database).getD (.text content))
    | _, node => return some node
  else return none

/-- What is known of a node when it is read again: of a folder inside a folder, and of a file that
was not read this time, it is what was known before. -/
def Node.refreshed (before : Option Node) : Node → Node
  | .folder es =>
    let old (name : String) : Option Node :=
      match before with
      | some (.folder known) => known.lookup name
      | _ => none
    .folder (es.map fun (name, node) =>
      match node with
      | .folder _ | .bytes => (name, (old name).getD node)
      | _ => (name, node))
  | node => node

/-- The tree with what is on the disk at the end of names, and with the folders on the way there. -/
def loadNames (t : FileTree) (start : List String) (want : Want) : List String → IO FileTree
  | [] => do
    match ← readNode start want with
    | some node => return t.set start (node.refreshed (t.root.find? start))
    | none => return t
  | name :: rest => do
    let isFolder ← ((← IO.currentDir) / diskPath start).isDir
    let t := if isFolder && (t.root.find? start).isNone then t.set start (.folder []) else t
    loadNames t (start ++ [name]) want rest

/-- The tree with what is on the disk at paths. -/
def load (t : FileTree) (wants : List (Path × Want)) : IO FileTree :=
  (wants.filter fun (p, _) => !p.isEmpty).foldlM
    (fun t (p, want) => loadNames t [] want (namesOf t p)) t

/-- Makes a change on the disk. -/
def Change.apply : Change → IO Unit
  | makeFolder location => IO.FS.createDirAll (diskPath location)
  | write location content => IO.FS.writeFile (diskPath location) content
  | remove location => IO.FS.removeFile (diskPath location)

/-- So many digits of sixteen, drawn at random. -/
def randomDigits (n : Nat) : IO String := do
  let digits ← (List.range n).mapM fun _ => return Nat.digitChar (← IO.rand 0 15)
  return String.ofList digits

/-- An id drawn at random, in the usual form with its version and variant. -/
def randomId : IO String := do
  let variant := Nat.digitChar (8 + (← IO.rand 0 3))
  return "-".intercalate [← randomDigits 8, ← randomDigits 4, "4" ++ (← randomDigits 3),
    String.ofList [variant] ++ (← randomDigits 3), ← randomDigits 12]

/-- The time in universal time. -/
def currentTime : IO Timestamp := do
  let nanos : Int := (← Std.Time.Timestamp.now).toNanosecondsSinceUnixEpoch.val
  match Timestamp.ofNanos? nanos with
  | some t => return t
  | none => throw (IO.userError "the time is out of range")

/-- Runs a command line on the disk. -/
def runOnDisk (i : Invocation) : IO UInt32 := do
  let here := (((← IO.currentDir).toString.splitOn "/")).filter fun name => name ≠ ""
  let empty ← load ⟨[], here⟩ [(.ofText ".", .names)]
  let before ← load empty ((i.config.map fun p => (p, Want.file)).toList)
  let c := match i.config with
    | some p => (before.config p).toOption.getD .empty
    | none => .empty
  let before ← load before (i.command.wants c)
  let reply := i.run ⟨← randomId, ← currentTime⟩ before
  reply.console.output.forM IO.println
  reply.console.notes.forM IO.eprintln
  (Change.between before.root reply.console.files.root).forM Change.apply
  return reply.exitCode.toUInt32

/-- How the program is used. -/
def usage : String :=
  "usage: factorstudy [--config FILE] [--log-level LEVEL] COMMAND\n\n" ++
  "  evaluate EXPRESSION --symbol SYMBOL [OPTIONS]\n" ++
  "  combine --factor EXPRESSION=WEIGHT ... --symbol SYMBOL [OPTIONS]\n" ++
  "  check EXPRESSION\n  functions\n  symbols\n" ++
  "  reports list [--sort KEY] [--limit N] | show ID | delete ID\n\n" ++
  "options: --interval --periods --quantile --start --end --save --description --output"

end FactorStudy

open FactorStudy in
/-- Runs the program on the words of a command line. -/
def main (words : List String) : IO UInt32 := do
  match Invocation.ofWords words with
  | .ok invocation => runOnDisk invocation
  | .error fault =>
    if fault.asksHelp then
      IO.println usage
      return 0
    IO.eprintln ("error: " ++ fault.message ++ "\n\n" ++ usage)
    return 2
