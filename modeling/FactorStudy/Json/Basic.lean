import FactorStudy.Decimal.Text

/-!
# JSON values

Members of an object stay in the order in which they were written, repeated names included: what a
repeated name means is for the reader of the object to decide. A number is kept as an integer when
it was written as one and fits 64 bits, and as a double otherwise, since some places accept counts
only.
-/

namespace FactorStudy

inductive Json where
  | null
  | bool (b : Bool)
  | integer (n : Int)
  | double (x : Float)
  | string (s : String)
  | array (items : List Json)
  | object (members : List (String × Json))

namespace Json

/-- A double as it stands in results: nothing where it is not finite. -/
def ofDouble (x : Float) : Json := if x.isFinite then double x else null

def ofCount (n : Nat) : Json := integer n

/-- A value or nothing. -/
def ofOption {α : Type} (f : α → Json) : Option α → Json
  | some a => f a
  | none => null

def asBool? : Json → Option Bool
  | bool b => some b
  | _ => none

def asString? : Json → Option String
  | string s => some s
  | _ => none

/-- Any number, as the nearest double. -/
def asDouble? : Json → Option Float
  | integer n => some (Float.ofInt n)
  | double x => some x
  | _ => none

/-- An integer that is not negative. -/
def asCount? : Json → Option Nat
  | integer n => if 0 ≤ n then some n.toNat else none
  | _ => none

/-- A value that may be nothing. -/
def asOption? {α : Type} (f : Json → Option α) : Json → Option (Option α)
  | null => some none
  | j => (f j).map some

/-- The items of an array, each read by `f`. -/
def asList? {α : Type} (f : Json → Option α) : Json → Option (List α)
  | array items => items.mapM f
  | _ => none

/-- The value of a name, when it occurs once. -/
def member? (members : List (String × Json)) (name : String) : Option Json :=
  match members.filter fun m => m.1 == name with
  | [m] => some m.2
  | _ => none

/-- Whether no name of a list occurs twice. -/
def eachOnce (members : List (String × Json)) (names : List String) : Bool :=
  names.all fun name => members.countP (fun m => m.1 == name) ≤ 1

mutual

/-- How deep arrays and objects stand inside each other. -/
def depth : Json → Nat
  | array items => depthItems items + 1
  | object members => depthMembers members + 1
  | _ => 0

def depthItems : List Json → Nat
  | [] => 0
  | j :: js => max j.depth (depthItems js)

def depthMembers : List (String × Json) → Nat
  | [] => 0
  | (_, j) :: ms => max j.depth (depthMembers ms)

end

mutual

/-- Whether every number in a value is in the range of doubles. -/
def inRange : Json → Bool
  | double x => x.isFinite
  | array items => inRangeItems items
  | object members => inRangeMembers members
  | _ => true

def inRangeItems : List Json → Bool
  | [] => true
  | j :: js => j.inRange && inRangeItems js

def inRangeMembers : List (String × Json) → Bool
  | [] => true
  | (_, j) :: ms => j.inRange && inRangeMembers ms

end

end Json

end FactorStudy
