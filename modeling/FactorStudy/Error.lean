import FactorStudy.Expr.Window
import FactorStudy.Panel.Basic

/-!
# What can go wrong

One type for every way in which a request can fail. The category groups the causes by who can mend
them, and fixes the exit code of the command line.
-/

namespace FactorStudy

/-- A failure of the file system. -/
inductive FileFault where
  | notFound
  | isDirectory
  | notDirectory
  | alreadyExists
  | nameTooLong
  /-- A path holds the character that ends texts in an operating system. -/
  | nulInPath
  | invalidText
deriving Repr, DecidableEq

def FileFault.message : FileFault → String
  | notFound => "No such file or directory (os error 2)"
  | alreadyExists => "File exists (os error 17)"
  | notDirectory => "Not a directory (os error 20)"
  | isDirectory => "Is a directory (os error 21)"
  | nameTooLong => "File name too long (os error 36)"
  | nulInPath => "file name contained an unexpected NUL byte"
  | invalidText => "stream did not contain valid UTF-8"

/-- Why a database did not carry out a statement. -/
inductive QueryFault where
  | notADatabase
  /-- The statement would change a database that is only to be read. -/
  | readOnly
  | missingTable (table : String)
  /-- An undefined number was given for a column that has to hold one. -/
  | missingValue (table column : String)
  /-- The text in a column, counted from 0, is not a time. -/
  | unreadableTime (column : Nat)
deriving Repr, DecidableEq

def QueryFault.message : QueryFault → String
  | notADatabase => "file is not a database"
  | readOnly => "attempt to write a readonly database"
  | missingTable table => s!"no such table: {table}"
  | missingValue table column => s!"NOT NULL constraint failed: {table}.{column}"
  | unreadableTime column =>
    s!"Conversion error from type Text at index: {column}, input contains invalid characters"

/-- Why a request failed. -/
inductive Error where
  | parse (e : ParseError)
  | window (e : WindowError)
  | invalidQuantile (n : Nat)
  | invalidPeriods (n : Nat)
  | invalidWeight (expression : String) (weight : Float)
  | emptyCombination
  | invalidPanel (symbol : String) (fault : Disorder)
  | noData (symbol : String) (interval : Interval)
  | reportNotFound (id : String)
  | database (reason : String)
  /-- A database was not opened within the time given to it. -/
  | unreachableDatabase (reason : String)
  | query (fault : QueryFault)
  | serialization
  | configParse (path reason : String)
  | configMissing (group key : String)
  | configInvalid (group key reason : String)
  | file (fault : FileFault)

/-- Who can mend a failure. -/
inductive Category where
  | form | meaning | parameter | notFound | storage | config | file
deriving Repr, DecidableEq

namespace Error

def category : Error → Category
  | parse e => if e.cause.isSemantic then .meaning else .form
  | window _ | invalidQuantile _ | invalidPeriods _ | invalidWeight .. | emptyCombination
  | invalidPanel .. => .parameter
  | noData .. | reportNotFound _ => .notFound
  | database _ | unreachableDatabase _ | query _ | serialization => .storage
  | configParse .. | configMissing .. | configInvalid .. => .config
  | file _ => .file

/-- The exit code of the command line. -/
def exitCode (e : Error) : Nat :=
  match e.category with
  | .file => 1
  | .config => 2
  | .storage => 3
  | .form | .meaning => 4
  | .parameter => 5
  | .notFound => 6

def message : Error → String
  | parse e => e.message
  | window e => s!"invalid window for {e.function.name}: {e.fault.message}"
  | invalidQuantile n => s!"invalid quantile count {n} (expected 3, 5 or 10)"
  | invalidPeriods n => s!"invalid forward periods {n} (must be at least 1)"
  | invalidWeight expression weight =>
    s!"invalid weight {Decimal.plain weight} for factor '" ++ expression ++ "'"
  | emptyCombination => "combination requires at least one factor"
  | invalidPanel symbol fault => s!"invalid panel for {symbol}: {fault.message}"
  | noData symbol interval => s!"no data for {symbol} at interval {interval.text}"
  | reportNotFound id => s!"report {id} not found"
  | database reason => s!"database error: {reason}"
  | unreachableDatabase reason =>
    s!"database error: timed out waiting for connection: {reason}"
  | query fault => s!"database query error: {fault.message}"
  | serialization => "serialization error"
  | configParse path reason => s!"config parse error in {path}: {reason}"
  | configMissing group key => s!"missing config key [{group}] {key}"
  | configInvalid group key reason => s!"invalid config value [{group}] {key}: {reason}"
  | file fault => fault.message

end Error

/-- The outcome of a request. -/
abbrev Outcome (α : Type) := Except Error α

end FactorStudy
