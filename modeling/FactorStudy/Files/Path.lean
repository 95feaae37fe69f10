import FactorStudy.Error

/-!
# Paths

A path is a text of names with slashes between them. Nothing between two slashes, or a point, means
to stay; two points mean to go back. Names and paths are limited in length, and no path holds the
character that ends texts in an operating system.
-/

namespace FactorStudy

/-- An operation that may fail for a reason of the file system. -/
abbrev Filed (α : Type) := Except FileFault α

/-- A path by what stands between its slashes. -/
structure Path where
  steps : List String
deriving DecidableEq, Repr

namespace Path

def ofText (s : String) : Path := ⟨(s.toList.splitOn '/').map String.ofList⟩

def text (p : Path) : String := "/".intercalate p.steps

/-- The path of the empty text, which leads nowhere. -/
def isEmpty (p : Path) : Bool := p.steps == [""]

/-- Whether a path starts with a slash. -/
def isAbsolute (p : Path) : Bool :=
  match p.steps with
  | "" :: _ :: _ => true
  | _ => false

/-- Whether a path ends with a slash. -/
def endsOpen (p : Path) : Bool := p.steps.getLast? == some ""

/-- The path without a slash at its end. -/
def closed (p : Path) : Path := if p.endsOpen then ⟨p.steps.dropLast⟩ else p

/-- The second path followed from where the first one leads. -/
def join (p q : Path) : Path :=
  if q.isAbsolute ∨ p.isEmpty then q else ⟨p.closed.steps ++ q.steps⟩

/-- The path from which names are followed; the empty one does not lead away. -/
def base (p : Path) : Path := if p.isEmpty then ⟨["."]⟩ else p

/-- Whether a step stays where it is. -/
def stays (step : String) : Bool := step == "" || step == "."

/-- The name at the end of a path and the steps before it, slashes at the end aside. A path that
ends by staying or by going back has no such name. -/
def ending? (p : Path) : Option (List String × String) :=
  match p.steps.reverse.dropWhile (· == "") with
  | [] => none
  | step :: before => if step = "." ∨ step = ".." then none else some (before.reverse, step)

/-- The paths on the way to the end of a path, the shortest one first. -/
def ancestors (p : Path) : List Path :=
  let leads (n : Nat) : Bool := p.steps[n]?.any fun step => !stays step
  (((List.range p.steps.length).filter leads).map fun n => ⟨p.steps.take (n + 1)⟩).dropLast

/-- The most bytes that a name takes. -/
def nameLimit : Nat := 255

/-- The most bytes that a path takes. -/
def lengthLimit : Nat := 4095

/-- Fails for a name that is too long. -/
def checkName (name : String) : Filed Unit :=
  if nameLimit < name.utf8ByteSize then .error .nameTooLong else .ok ()

/-- Fails for a path that cannot be followed, whatever files there are. -/
def check (p : Path) : Filed Unit :=
  if p.text.contains '\x00' then .error .nulInPath
  else if p.isEmpty then .error .notFound
  else if lengthLimit < p.text.utf8ByteSize then .error .nameTooLong
  else .ok ()

end Path

end FactorStudy
