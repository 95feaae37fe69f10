import FactorStudy.Config.Basic
import FactorStudy.Error

/-!
# Reading configuration files

A file is read line by line. A name in brackets opens a group; any other line gives a key, with a
value after the first `=` or `:` or without one. A semicolon or a hash starts a comment.
-/

namespace FactorStudy.Config

open Text (trimBlank)

/-- What is wrong with a line; lines are counted from 1. -/
inductive Fault where
  | unclosedGroup (line : Nat)
  | emptyKey (line : Nat)
deriving Repr, DecidableEq

def Fault.message : Fault → String
  | unclosedGroup line =>
    s!"line {line}: Found opening bracket for section name but no closing bracket"
  | emptyKey line => s!"line {line}:0: Key cannot be empty"

/-- The group of the keys that stand before any group is opened. -/
def firstGroup : String := "default"

def isComment (c : Char) : Bool := c = ';' || c = '#'

def isDelimiter (c : Char) : Bool := c = '=' || c = ':'

/-- A name in lower case without blanks around it. -/
def name (s : List Char) : String := Text.lowercase (String.ofList (trimBlank s))

/-- The characters before the last closing bracket, if there is one. -/
def beforeLastBracket? (s : List Char) : Option (List Char) :=
  match s.reverse.dropWhile (· ≠ ']') with
  | [] => none
  | _ :: before => some before.reverse

/-- What a line says. -/
inductive Line where
  | nothing
  | group (name : String)
  | key (key : String) (value : Option String)

/-- Reads the line with the given number. -/
def readLine (number : Nat) (raw : List Char) : Except Fault Line :=
  let line := trimBlank raw
  let content := trimBlank (line.takeWhile fun c => !isComment c)
  match content with
  | [] => .ok .nothing
  | '[' :: inside =>
    match beforeLastBracket? inside with
    | some text => .ok (.group (name text))
    | none => .error (.unclosedGroup number)
  | content =>
    let key := name (content.takeWhile fun c => !isDelimiter c)
    match content.dropWhile fun c => !isDelimiter c with
    | [] => .ok (.key key none)
    | _ :: value =>
      if key = "" then .error (.emptyKey number)
      else .ok (.key key (some (String.ofList (trimBlank value))))

/-- Reads the lines from number `number` on, in a group. -/
def readLines (group : String) (number : Nat) : List (List Char) → Except Fault (List Entry)
  | [] => .ok []
  | raw :: lines => do
    match ← readLine number raw with
    | .nothing => readLines group (number + 1) lines
    | .group name => readLines name (number + 1) lines
    | .key key value =>
      let entries ← readLines group (number + 1) lines
      return ⟨group, key, value⟩ :: entries

/-- The lines of a text. -/
def lines (s : String) : List (List Char) := s.toList.splitOn '\n'

/-- The configuration in a text. -/
def read (s : String) : Except Fault Config := do
  return ⟨← readLines firstGroup 1 (lines s)⟩

/-- The configuration in a text that is not from a file. -/
def ofString (content : String) : Outcome Config :=
  (read content).mapError fun fault => .configParse "<string>" fault.message

/-- What is said of a file that cannot be made use of, for whatever reason. -/
def unusable (file reason : String) : Error :=
  .configParse file ("couldn't read " ++ file ++ ": " ++ reason)

/-- The configuration in a file with the given name and content. -/
def ofFile (file content : String) : Outcome Config :=
  (read content).mapError fun fault => unusable file fault.message

end FactorStudy.Config
