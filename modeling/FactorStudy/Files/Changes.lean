import FactorStudy.Database.Text
import FactorStudy.Files.Folder

/-!
# Changes to files

What is different between two folders, as the steps that lead from the one to the other on a disk.
-/

namespace FactorStudy

/-- One step on a disk, at a location. -/
inductive Change where
  | makeFolder (location : List String)
  | write (location : List String) (content : String)
  | remove (location : List String)
deriving Repr, DecidableEq

/-- The content of the file for a node that is not a folder. -/
def Node.fileContent? : Node → Option String
  | .text content => some content
  | .database db => some db.toText
  | .bytes | .folder _ => none

namespace Change

mutual

/-- The steps that make a node out of what was at its location before. A file of bytes is never
made. -/
def toNode (location : List String) (before : Option Node) : Node → List Change
  | .folder es =>
    match before with
    | some (.folder old) =>
      (old.filter fun e => (es.lookup e.1).isNone).map (fun e => .remove (location ++ [e.1])) ++
        toEntries location old es
    | _ => .makeFolder location :: toEntries location [] es
  | .text content =>
    if before.bind Node.fileContent? = some content then [] else [.write location content]
  | .bytes => []
  | .database db =>
    if before.bind Node.fileContent? = some db.toText then [] else [.write location db.toText]

/-- The steps that make entries out of those of a folder before. -/
def toEntries (location : List String) (before : Folder) : List (String × Node) → List Change
  | [] => []
  | (name, node) :: rest =>
    toNode (location ++ [name]) (before.lookup name) node ++ toEntries location before rest

end

/-- The steps from one folder to another. -/
def between (before after : Folder) : List Change :=
  toNode [] (some (.folder before)) (.folder after)

end Change

end FactorStudy
