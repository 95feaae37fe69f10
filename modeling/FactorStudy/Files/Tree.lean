import FactorStudy.Database.Address
import FactorStudy.Files.Folder

/-!
# File trees

What a program does to files is a function from the file tree before to the file tree afterwards, so
it can be followed without a disk. A path without a slash in front starts from the folder in which
the program works.
-/

namespace FactorStudy

/-- All folders, and the location of the one in which the program works. -/
structure FileTree where
  root : Folder
  here : List String

namespace FileTree

/-- The location to which steps lead from another one. Every step starts from a folder; it need not
lead to something. Above the root is the root. -/
def walk (t : FileTree) (start : List String) : List String → Filed (List String)
  | [] => .ok start
  | step :: rest =>
    match t.root.find? start with
    | none => .error .notFound
    | some (.folder _) =>
      if Path.stays step then walk t start rest
      else if step = ".." then walk t start.dropLast rest
      else do
        Path.checkName step
        walk t (start ++ [step]) rest
    | some _ => .error .notDirectory

/-- The location from which a path starts. -/
def start (t : FileTree) (p : Path) : List String := if p.isAbsolute then [] else t.here

/-- The location of a path. -/
def locate (t : FileTree) (p : Path) : Filed (List String) := do
  p.check
  t.walk (t.start p) p.steps

/-- The tree with a node at a location. -/
def set (t : FileTree) (location : List String) (node : Node) : FileTree :=
  { t with root := t.root.set node location }

/-- What a path leads to. -/
def node (t : FileTree) (p : Path) : Filed Node := do
  match t.root.find? (← t.locate p) with
  | some node => return node
  | none => .error .notFound

/-- Whether a path leads to something that is not a folder. -/
def isFile (t : FileTree) (p : Path) : Bool :=
  match t.node p with
  | .ok (.folder _) => false
  | .ok _ => true
  | .error _ => false

/-- The text at the end of a path. -/
def read (t : FileTree) (p : Path) : Filed String := do Folder.content (some (← t.node p))

/-- The folder at the end of a path. -/
def folder (t : FileTree) (p : Path) : Filed Folder := do
  match ← t.node p with
  | .folder es => return es
  | _ => .error .notDirectory

/-- The tree with a text at the end of a path. A slash behind a name asks for a folder, which is
not made in this way. -/
def write (t : FileTree) (p : Path) (text : String) : Filed FileTree := do
  p.check
  match p.ending? with
  | none =>
    let _ ← t.walk (t.start p) p.steps
    .error .isDirectory
  | some (before, name) =>
    if p.endsOpen then
      let _ ← t.walk (t.start p) (before ++ ["."])
      .error .isDirectory
    else
      let location ← t.walk (t.start p) (before ++ [name])
      match t.root.find? location with
      | some (.folder _) => .error .isDirectory
      | _ => return t.set location (.text text)

/-- The tree with a new folder at the end of a path. -/
def addFolder (t : FileTree) (p : Path) : Filed FileTree := do
  p.check
  match p.ending? with
  | none =>
    let _ ← t.walk (t.start p) p.steps
    .error .alreadyExists
  | some (before, name) =>
    let location ← t.walk (t.start p) (before ++ [name])
    match t.root.find? location with
    | none => return t.set location (.folder [])
    | some _ => .error .alreadyExists

/-- Adds a folder at the end of each path where there is none, up to a path where this fails. -/
def addFolders (t : FileTree) : List Path → Filed Unit × FileTree
  | [] => (.ok (), t)
  | p :: rest =>
    match t.addFolder p with
    | .ok t => addFolders t rest
    | .error fault => if (t.folder p).isOk then addFolders t rest else (.error fault, t)

/-- Makes a folder at the end of a path. Where a folder on the way is missing, those on the way are
made first; they stay when it fails after all. -/
def makeFolder (t : FileTree) (p : Path) : Filed Unit × FileTree :=
  if p.isEmpty then (.ok (), t)
  else
    match t.addFolders [p] with
    | (.error .notFound, _) => t.addFolders (p.ancestors ++ [p])
    | done => done

/-- Runs an operation on the folder at the end of a path. -/
def inside {α : Type} (t : FileTree) (p : Path) (f : Folder → Outcome α × Folder) :
    Outcome α × FileTree :=
  match t.locate p, t.folder p with
  | .ok location, .ok es =>
    let (result, after) := f es
    (result, t.set location (.folder after))
  | .error fault, _ => (.error (.file fault), t)
  | _, .error fault => (.error (.file fault), t)

/-! ### Databases -/

/-- The location to which the names of a database file lead from another one. A step back takes
away the name before it, whether or not there is such a folder; but no name is looked for in a file,
and none is too long for the folder it is looked for in. -/
def trace? (t : FileTree) (start : List String) : List String → Option (List String)
  | [] => some start
  | step :: rest =>
    if Path.stays step then trace? t start rest
    else if step = ".." then trace? t start.dropLast rest
    else
      match t.root.find? start with
      | some (.folder _) =>
        if (Path.checkName step).isOk then trace? t (start ++ [step]) rest else none
      | some _ => none
      | none => trace? t (start ++ [step]) rest

/-- The failure to get at the file of a database at all. -/
def cannotOpen (a : DatabaseAddress) : Error :=
  .unreachableDatabase ("unable to open database file: " ++ a.text)

/-- The location of a database file, and the database in it. An empty file is a database without
tables, and so is one that is only about to be made. -/
def databaseAt (t : FileTree) (a : DatabaseAddress) (file : Path) :
    Outcome (List String × Database) :=
  match t.trace? (t.start file) file.steps with
  | none => .error (cannotOpen a)
  | some location =>
    match t.root.find? location.dropLast, t.root.find? location with
    | _, some (.database db) => return (location, db)
    | _, some (.text content) =>
      if content = "" then return (location, .empty) else .error (.query .notADatabase)
    | _, some .bytes => .error (.query .notADatabase)
    | some (.folder _), none =>
      if a.access = .create then return (location, .empty) else .error (cannotOpen a)
    | _, _ => .error (cannotOpen a)

/-- The database at an address, as it is once it has been made ready for use. One that is not in a
file is opened anew by every command, and so its tables are always found empty. -/
def database (t : FileTree) (a : DatabaseAddress) : Outcome Database :=
  match a.file with
  | some file => (t.databaseAt a file).map (·.2)
  | none => .ok Database.empty.initialized

/-- The tree with a database at an address. -/
def putDatabase (t : FileTree) (a : DatabaseAddress) (db : Database) : FileTree :=
  match a.file.map (t.databaseAt a) with
  | some (.ok (location, _)) => t.set location (.database db)
  | _ => t

/-- Runs a statement that changes a database. -/
def updateDatabase {α : Type} (t : FileTree) (a : DatabaseAddress) (result : α)
    (statement : Database → Outcome Database) : Outcome α × FileTree :=
  if ¬ a.isWritable then (.error (.query .readOnly), t)
  else
    match t.database a >>= statement with
    | .ok db => (.ok result, t.putDatabase a db)
    | .error e => (.error e, t)

/-- The tree with a file at the address of a database, an empty one if there was none. -/
def withFile (t : FileTree) (a : DatabaseAddress) : FileTree :=
  match a.file.map (t.databaseAt a) with
  | some (.ok (location, _)) =>
    if (t.root.find? location).isNone then t.set location (.text "") else t
  | _ => t

/-- Makes the database at an address ready for use: it has both tables then. -/
def openDatabase (t : FileTree) (a : DatabaseAddress) : Outcome Unit × FileTree :=
  match t.database a with
  | .error e => (.error e, t)
  | .ok db =>
    if a.isWritable then (.ok (), t.putDatabase a db.initialized)
    else if a.file.isSome && db.isReady then (.ok (), t)
    else (.error (.query .readOnly), t.withFile a)

end FileTree

end FactorStudy
