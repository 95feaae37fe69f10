import FactorStudy.Files.Path
import FactorStudy.Text.Basic

/-!
# Addresses of databases

A database is addressed by the path of its file, or by a URI: the path with options behind it, which
say what may be done with the database. Two texts stand for no file, the empty one and that of
memory; a database that is not in a file is one of its own for whoever opens it, is without tables
at first and is not kept.
-/

namespace FactorStudy

/-- What may be done with a database. -/
inductive Access where
  | read
  | write
  /-- Writing, also to a file that is not there yet. -/
  | create
  /-- Anything, with a database that is not kept. -/
  | memory
deriving DecidableEq, Repr

structure DatabaseAddress where
  /-- The address as it is given. -/
  text : String
  /-- The path of the file, if there is one. -/
  file : Option Path
  access : Access
  /-- Whether the file is said never to change. -/
  frozen : Bool
deriving DecidableEq, Repr

namespace Access

/-- The access that an option names. -/
def named? : String → Option Access
  | "ro" => some read
  | "rw" => some write
  | "rwc" => some create
  | "memory" => some memory
  | _ => none

/-- Whether a database with one access may be opened with another one instead. A database in memory
takes nothing away from files. -/
def allows : Access → Access → Bool
  | _, memory | memory, _ | create, _ | _, read => true
  | write, write => true
  | _, _ => false

end Access

namespace DatabaseAddress

/-- The address of a file. -/
def ofFile (file : String) : DatabaseAddress := ⟨file, some (.ofText file), .create, false⟩

/-- Whether a text stands for no file. -/
def isMemory (file : String) : Bool := file == "" || file == ":memory:"

/-- The name and the value of an option. -/
def option (s : List Char) : String × String :=
  (Text.percentDecode (s.takeWhile (· ≠ '=')),
    Text.percentDecode ((s.dropWhile (· ≠ '=')).drop 1))

/-- The options behind the question mark of a URI; those without a name do not count. -/
def options (s : List Char) : List (String × String) :=
  ((s.splitOn '&').map option).filter fun o => o.1 ≠ ""

/-- The ways in which files can be reached. -/
def fileSystems : List String := ["unix", "unix-none", "unix-dotfile", "unix-excl", "memdb"]

/-- The access after an option. -/
def accessAfter (access : Access) : String × String → Except String Access
  | ("mode", value) =>
    match Access.named? value with
    | some wanted =>
      if access.allows wanted then .ok wanted
      else .error ("access mode not allowed: " ++ value)
    | none => .error ("no such access mode: " ++ value)
  | ("cache", value) =>
    if value = "shared" ∨ value = "private" then .ok access
    else .error ("no such cache mode: " ++ value)
  | _ => .ok access

/-- Whether the value of an option says yes. -/
def saysYes (value : String) : Bool :=
  match value.toList with
  | c :: s =>
    if c.isDigit then
      let digits := (c :: s).takeWhile Char.isDigit
      (digits.foldl (fun n d => (n * 10 + (d.toNat - '0'.toNat)) % 256) 0) ≠ 0
    else ["on", "yes", "true"].contains (String.ofList ((c :: s).map Char.toLower))
  | [] => false

/-- The path in a URI, after its scheme, with what stands behind it. No other machine can be
named. -/
def afterAuthority (s : List Char) : Except String (List Char) :=
  match s with
  | '/' :: '/' :: s =>
    let authority := String.ofList (s.takeWhile (· ≠ '/'))
    if authority = "" ∨ authority = "localhost" then .ok (s.dropWhile (· ≠ '/'))
    else .error ("invalid uri authority: " ++ authority)
  | s => .ok s

/-- The address in a URI after its scheme. Of an option that is given twice the last one counts for
the way to reach the file, and the first one for whether it changes. -/
def ofUri (text : String) (s : List Char) : Except String DatabaseAddress := do
  let s ← afterAuthority (s.takeWhile (· ≠ '#'))
  let file := Text.percentDecode (s.takeWhile (· ≠ '?'))
  let options := options ((s.dropWhile (· ≠ '?')).drop 1)
  let access ← options.foldlM accessAfter .create
  let fileSystem := (options.reverse.lookup "vfs").getD "unix"
  if ¬ fileSystems.contains fileSystem then .error ("no such vfs: " ++ fileSystem)
  else if isMemory file ∨ access = .memory ∨ fileSystem = "memdb" then
    return ⟨text, none, access, false⟩
  else return ⟨text, some (.ofText file), access, (options.lookup "immutable").any saysYes⟩

/-- The address in a text; otherwise what is wrong with it. -/
def ofText (text : String) : Except String DatabaseAddress :=
  if text.contains '\x00' then
    let position := (String.ofList (text.toList.takeWhile (· ≠ '\x00'))).utf8ByteSize
    .error s!"nul byte found in provided data at position: {position}"
  else
    match text.toList with
    | 'f' :: 'i' :: 'l' :: 'e' :: ':' :: s => ofUri text s
    | _ => if isMemory text then .ok ⟨text, none, .create, false⟩ else .ok (ofFile text)

/-- Whether a database may be changed. -/
def isWritable (a : DatabaseAddress) : Bool := a.access ≠ .read && !a.frozen

end DatabaseAddress

end FactorStudy
