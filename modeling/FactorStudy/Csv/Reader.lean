import FactorStudy.Text.Basic

/-!
# Reading tables of values separated by commas

A table is a text of records, each of which ends at the end of its line. A field that starts with a
quote goes on to the next quote, over commas and line ends; a quote inside it is written twice.
Lines without anything on them are passed over. The reader goes through the text character by
character, and notes where the reading of each record began, for messages.
-/

namespace FactorStudy.Csv

/-- A place in a text: lines are counted from 1, bytes from 0. -/
structure Position where
  line : Nat
  byte : Nat
deriving DecidableEq, Repr

def Position.first : Position := ⟨1, 0⟩

/-- The place after a character. -/
def Position.after (p : Position) (c : Char) : Position :=
  ⟨p.line + (if c = '\n' then 1 else 0), p.byte + c.utf8Size⟩

/-- A record of a table, and where the record before it had ended. -/
structure Record where
  start : Position
  fields : List String
deriving DecidableEq, Repr

/-- What the next character belongs to. -/
inductive Mode where
  | betweenRecords
  | fieldStart
  | plain
  | quoted
  /-- After a quote in a quoted field: its end, or the first half of a written quote. -/
  | quoteSeen
deriving DecidableEq, Repr

/-- The reader in the middle of a text. What has been read is held in reverse. -/
structure Scanner where
  mode : Mode
  here : Position
  start : Position
  field : List Char
  fields : List String
  records : List Record

namespace Scanner

def initial (here : Position) : Scanner := ⟨.betweenRecords, here, here, [], [], []⟩

def isLineEnd (c : Char) : Bool := c = '\n' || c = '\r'

/-- Takes a character into the field. -/
def keep (s : Scanner) (mode : Mode) (c : Char) : Scanner :=
  { s with mode := mode, field := c :: s.field }

/-- The text of the field that is being read. -/
def fieldText (s : Scanner) : String := String.ofList s.field.reverse

/-- Ends a field, and expects another one. -/
def endField (s : Scanner) : Scanner :=
  { s with mode := .fieldStart, field := [], fields := s.fieldText :: s.fields }

/-- Ends a record, with its last field. -/
def endRecord (s : Scanner) : Scanner :=
  { s with
    mode := .betweenRecords
    start := s.here
    field := []
    fields := []
    records := ⟨s.start, (s.fieldText :: s.fields).reverse⟩ :: s.records }

/-- A character that is not inside quotes. -/
def bare (s : Scanner) (c : Char) : Scanner :=
  if c = ',' then s.endField
  else if isLineEnd c then s.endRecord
  else s.keep .plain c

/-- The first character of a field. -/
def opening (s : Scanner) (c : Char) : Scanner :=
  if c = '"' then { s with mode := .quoted } else s.bare c

/-- Takes one character. -/
def step (s : Scanner) (c : Char) : Scanner :=
  let s := { s with here := s.here.after c }
  match s.mode with
  | .betweenRecords => if isLineEnd c then s else s.opening c
  | .fieldStart => s.opening c
  | .plain => s.bare c
  | .quoted => if c = '"' then { s with mode := .quoteSeen } else s.keep .quoted c
  | .quoteSeen => if c = '"' then s.keep .quoted c else s.bare c

/-- The records at the end of the text, which also ends a record. -/
def finish (s : Scanner) : List Record :=
  (if s.mode = .betweenRecords then s else s.endRecord).records.reverse

end Scanner

/-- The mark that may stand in front of a text to show its encoding. -/
def byteOrderMark : Char := '\ufeff'

/-- The records of a table. -/
def read (s : String) : List Record :=
  match s.toList with
  | c :: rest =>
    if c = byteOrderMark then
      (rest.foldl Scanner.step (.initial (Position.first.after c))).finish
    else ((c :: rest).foldl Scanner.step (.initial .first)).finish
  | [] => []

end FactorStudy.Csv
