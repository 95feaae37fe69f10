import FactorStudy.Config.Reader
import FactorStudy.Csv.Panels
import FactorStudy.Database.Bars

/-!
# Where prices come from

A configuration decides whether panels are read from the files of a folder or from a database.
-/

namespace FactorStudy

/-- A store of panels. -/
inductive PriceStore where
  | files (folder : Path)
  | database (address : DatabaseAddress)
deriving DecidableEq, Repr

namespace Config

/-- The value of a key that has to be given. -/
def need (c : Config) (group key : String) : Outcome String :=
  match c.get? group key with
  | some value => .ok value
  | none => .error (.configMissing group key)

/-- The failure of a group that asks for a kind of store that there is not. -/
def unknownBackend (group backend : String) : Error :=
  .configInvalid group "backend" ("unknown backend '" ++ backend ++ "'")

/-- Where the database is. -/
def databaseAddress (c : Config) : Outcome DatabaseAddress := do
  (DatabaseAddress.ofText (← c.need "sqlite" "path")).mapError Error.unreachableDatabase

/-- The store of panels that is configured. -/
def priceStore (c : Config) : Outcome PriceStore :=
  match (c.get? "data" "backend").getD "csv" with
  | "csv" => do return .files (.ofText (← c.need "data" "dir"))
  | "sqlite" => do return .database (← c.databaseAddress)
  | backend => .error (unknownBackend "data" backend)

end Config

/-- The configuration in the file at the end of a path. -/
def FileTree.config (t : FileTree) (file : Path) : Outcome Config :=
  match t.read file with
  | .ok content => Config.ofFile file.text content
  | .error fault => .error (Config.unusable file.text fault.message)

namespace PriceStore

/-- Makes a store ready for use. -/
def prepare (t : FileTree) : PriceStore → Outcome Unit × FileTree
  | files _ => (.ok (), t)
  | database address => t.openDatabase address

/-- The panel that is asked for. -/
def fetch (t : FileTree) (q : Query) : PriceStore → Outcome (Panel Float)
  | files folder => Csv.fetch t folder q
  | database address => do (← t.database address).fetch q

/-- What there is in a store. -/
def list (t : FileTree) : PriceStore → Outcome Listing
  | files folder => Csv.list t folder
  | database address => do (← t.database address).listPanels

end PriceStore

end FactorStudy
