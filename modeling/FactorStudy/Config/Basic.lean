import FactorStudy.Text.Basic
import FactorStudy.Text.Lowercase
import FactorStudy.Decimal.Numeral

/-!
# Configuration

A configuration file holds groups of keys. Names of groups and keys do not distinguish capital from
small letters. When a key is given more than once the last time counts, also when it is given
without a value, which is as good as not being given at all.
-/

namespace FactorStudy

/-- One key of a configuration, with its names in lower case. -/
structure Config.Entry where
  group : String
  key : String
  value : Option String
deriving Repr, DecidableEq

/-- The keys of a configuration in the order in which they are given. -/
structure Config where
  entries : List Config.Entry

namespace Config

/-- A configuration in which nothing is given. -/
def empty : Config := ⟨[]⟩

/-- The value of a key. -/
def get? (c : Config) (group key : String) : Option String :=
  let group := Text.lowercase group
  let key := Text.lowercase key
  ((c.entries.reverse.find? fun e => e.group == group && e.key == key).bind (·.value))

/-- The value of a key as an integer; the default when it is missing or something else. -/
def int (c : Config) (group key : String) (default : Int) : Int :=
  ((c.get? group key).bind fun v => Decimal.readInt64? v.toList).getD default

/-- The value of a key as a double; the default when it is missing or something else. -/
def double (c : Config) (group key : String) (default : Float) : Float :=
  ((c.get? group key).bind fun v => (Decimal.readFloat v.toList).toOption).getD default

/-- A word for yes or no. -/
def readBool? (s : String) : Option Bool :=
  let word := Text.lowercase s
  if word = "true" ∨ word = "yes" ∨ word = "1" then some true
  else if word = "false" ∨ word = "no" ∨ word = "0" then some false
  else none

/-- The value of a key as yes or no; the default when it is missing or something else. -/
def bool (c : Config) (group key : String) (default : Bool) : Bool :=
  ((c.get? group key).bind readBool?).getD default

end Config

end FactorStudy
