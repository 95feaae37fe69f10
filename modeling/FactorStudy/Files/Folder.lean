import FactorStudy.Database.Basic
import FactorStudy.Files.Path

/-!
# Folders

A folder holds texts, databases and further folders by name. An operation on a folder gives the
folder afterwards; one that fails says why, as an operating system does, and changes nothing.
-/

namespace FactorStudy

/-- What a name in a folder stands for. -/
inductive Node where
  | text (content : String)
  /-- A file that is neither a text nor a database. -/
  | bytes
  | database (db : Database)
  | folder (entries : List (String × Node))

/-- The entries of a folder in no particular order, one for each name. -/
abbrev Folder := List (String × Node)

namespace Folder

/-! ### One folder -/

/-- The folder without a name. -/
def erase (es : Folder) (name : String) : Folder := es.filter fun e => !(e.1 == name)

/-- The folder with a name for a node. -/
def put (es : Folder) (name : String) (node : Node) : Folder := (name, node) :: es.erase name

/-- The names in a folder, in the order of their characters. -/
def names (es : Folder) : List String := (es.map (·.1)).mergeSort fun a b => decide (a ≤ b)

/-- The content of a text. -/
def content : Option Node → Filed String
  | some (.text s) => .ok s
  | some .bytes | some (.database _) => .error .invalidText
  | some (.folder _) => .error .isDirectory
  | none => .error .notFound

/-- What a name stands for. -/
def entry (es : Folder) (name : String) : Filed (Option Node) := do
  Path.checkName name
  return es.lookup name

def read (es : Folder) (name : String) : Filed String := do content (← es.entry name)

/-- The folder with a text under a name, in the place of any other file of that name. -/
def write (es : Folder) (name text : String) : Filed Folder := do
  match ← es.entry name with
  | some (.folder _) => .error .isDirectory
  | _ => return es.put name (.text text)

/-- The folder with a file under a new name, in the place of any other file of that name. -/
def rename (es : Folder) (old new : String) : Filed Folder := do
  match ← es.entry old, ← es.entry new with
  | none, _ => .error .notFound
  | some _, some (.folder _) => .error .isDirectory
  | some node, _ => return (es.erase old).put new node

/-- The folder without a file. -/
def remove (es : Folder) (name : String) : Filed Folder := do
  match ← es.entry name with
  | none => .error .notFound
  | some (.folder _) => .error .isDirectory
  | some _ => return es.erase name

/-! ### Locations

A location is the names that lead from a folder into the folders inside it. -/

/-- What is at a location. -/
def find? (root : Folder) : List String → Option Node
  | [] => some (.folder root)
  | name :: rest =>
    match root.lookup name with
    | some (.folder es) => find? es rest
    | some node => if rest = [] then some node else none
    | none => none

/-- The folder with a node at a location, when the location is in a folder that exists. -/
def set (node : Node) : List String → Folder → Folder
  | [], root =>
    match node with
    | .folder es => es
    | _ => root
  | [name], root => root.put name node
  | name :: rest, root =>
    match root.lookup name with
    | some (.folder es) => root.put name (.folder (set node rest es))
    | _ => root

end Folder

end FactorStudy
