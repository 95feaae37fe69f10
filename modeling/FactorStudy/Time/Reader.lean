import FactorStudy.Time.Timestamp
import FactorStudy.Decimal.Numeral

/-!
# Reading timestamps

Three families of formats. The calendar formats are lenient: each number may follow blanks and
have fewer digits than usual, and a year may have a sign and any number of digits. The internet
format has fixed widths, a fraction and a zone. Between them lies the zoned format of stored
reports, which has the numbers of the first and the zone of the second.
-/

namespace FactorStudy.Timestamp

open Text (dropBlank trimBlank)
open Decimal (ofDigits)

/-- A reader of one piece of a timestamp: its value and the text after it. -/
abbrev Piece (α : Type) := List Char → Option (α × List Char)

/-- A number of at least `least` and at most `most` digits. -/
def digits (least most : Nat) : Piece Nat := fun s =>
  let run := (s.take most).takeWhile Char.isDigit
  if run.length < least then none else some (ofDigits run, s.drop run.length)

/-- A number of at most two digits, after blanks. -/
def field : Piece Nat := fun s => digits 1 2 (dropBlank s)

/-- A year after blanks: up to four digits, or any number after a sign. -/
def year : Piece Int := fun s =>
  let signed (sign : Int) (t : List Char) : Option (Int × List Char) :=
    (digits 1 t.length t).map fun (n, rest) => (sign * (n : Int), rest)
  match dropBlank s with
  | '-' :: t => signed (-1) t
  | '+' :: t => signed 1 t
  | t => (digits 1 4 t).map fun (n, rest) => ((n : Int), rest)

/-- One character, taken as it is. -/
def char (c : Char) : Piece Unit
  | d :: s => if d = c then some ((), s) else none
  | [] => none

/-- One character after blanks. -/
def spacedChar (c : Char) : Piece Unit := fun s => char c (dropBlank s)

/-- The parts of a date. -/
structure Calendar where
  year : Int
  month : Nat
  day : Nat

/-- The parts of a time of day. -/
structure Clock where
  hour : Nat
  minute : Nat
  second : Nat
  nano : Nat

def Calendar.date? (c : Calendar) : Option Date := Date.of? c.year c.month c.day

def Clock.on? (k : Clock) (c : Calendar) : Option Timestamp :=
  c.date?.bind fun date => Timestamp.of? date k.hour k.minute k.second k.nano

/-- Year, month and day, with the dashes read by `dash`. -/
def calendar (dash : Piece Unit) : Piece Calendar := fun s => do
  let (y, s) ← year s
  let (_, s) ← dash s
  let (m, s) ← field s
  let (_, s) ← dash s
  let (d, s) ← field s
  return (⟨y, m, d⟩, s)

/-- Hour, minute and second, with the colons read by `colon`. -/
def clock (colon : Piece Unit) : Piece Clock := fun s => do
  let (h, s) ← field s
  let (_, s) ← colon s
  let (m, s) ← field s
  let (_, s) ← colon s
  let (sec, s) ← field s
  return (⟨h, m, sec, 0⟩, s)

/-- The nanoseconds after a point, if there is a point. Digits past the ninth are dropped. -/
def fraction : Piece Nat
  | '.' :: s =>
    let run := s.takeWhile Char.isDigit
    if run = [] then none
    else
      let kept := run.take 9
      some (ofDigits kept * Nat.pow 10 (9 - kept.length), s.drop run.length)
  | s => some (0, s)

/-- A date and a time with `separator` between them, over the whole text. -/
def plainFormat (separator : Piece Unit) (s : List Char) : Option Timestamp := do
  let (c, s) ← calendar (char '-') s
  let (_, s) ← separator s
  let (k, s) ← clock (char ':') s
  if s = [] then k.on? c else none

/-- A date over the whole text, at midnight. -/
def dateFormat (s : List Char) : Option Timestamp := do
  let (c, s) ← calendar (char '-') s
  if s = [] then c.date?.map midnight else none

/-- Any number of blanks. -/
def blanks : Piece Unit := fun s => some ((), dropBlank s)

/-- The seconds by which a zone is ahead: `Z`, or a sign, hours and minutes with `between` read
between them. -/
def zone (between : Piece Unit) (s : List Char) : Option (Int × List Char) :=
  let ahead (sign : Int) (s : List Char) : Option (Int × List Char) := do
    let (h, s) ← digits 2 2 s
    let (_, s) ← between s
    let (m, s) ← digits 2 2 s
    if h ≤ 23 ∧ m ≤ 59 then return (sign * ((h : Int) * 3600 + (m : Int) * 60), s) else none
  match s with
  | c :: rest =>
    if c = 'Z' ∨ c = 'z' then some (0, rest)
    else if c = '+' then ahead 1 rest
    else if c = '-' ∨ c = '\u2212' then ahead (-1) rest
    else none
  | [] => none

/-- The separator between date and time in the internet formats. -/
def dateEnd : Piece Unit
  | c :: s => if c = 'T' ∨ c = 't' ∨ c = ' ' then some ((), s) else none
  | [] => none

/-- The internet format, over the whole text, in universal time. -/
def internetFormat (s : List Char) : Option Timestamp := do
  let (y, s) ← digits 4 4 s
  let (_, s) ← char '-' s
  let (m, s) ← digits 2 2 s
  let (_, s) ← char '-' s
  let (d, s) ← digits 2 2 s
  let (_, s) ← dateEnd s
  let (h, s) ← digits 2 2 s
  let (_, s) ← char ':' s
  let (min, s) ← digits 2 2 s
  let (_, s) ← char ':' s
  let (sec, s) ← digits 2 2 s
  let (nano, s) ← fraction s
  let (offset, s) ← zone (char ':') s
  if s = [] then
    ((⟨h, min, sec, nano⟩ : Clock).on? ⟨y, m, d⟩).bind (·.shiftClock? offset)
  else none

/-- The texts taken for a timestamp: date and time, the internet format, or a bare date. -/
def read? (s : String) : Option Timestamp :=
  let t := trimBlank s.toList
  (plainFormat blanks t).or ((plainFormat (char 'T') t).or ((internetFormat t).or (dateFormat t)))

/-- A timestamp in a table, as `columnText` writes it. -/
def readColumn? (s : String) : Option Timestamp := plainFormat blanks s.toList

/-- A timestamp in a result, as `isoText` writes it, over the whole text. -/
def readIso? (s : String) : Option Timestamp := do
  let (c, s) ← calendar (spacedChar '-') s.toList
  let (_, s) ← spacedChar 'T' s
  let (k, s) ← clock (spacedChar ':') s
  let (nano, s) ← fraction s
  if dropBlank s = [] then ({ k with nano } : Clock).on? c else none

/-- Colons and blanks, as many as there are. -/
def loosely : Piece Unit := fun s => some ((), s.dropWhile fun c => c = ':' || Text.isBlank c)

/-- The zone of a stored report: as in the internet format with a loose colon, or the letters
`UTC`. -/
def reportZone (s : List Char) : Option (Int × List Char) :=
  if (s.take 3).map Char.toUpper = ['U', 'T', 'C'] then some (0, s.drop 3) else zone loosely s

/-- The time of a stored report, in universal time. -/
def readReport? (s : String) : Option Timestamp := do
  let (c, s) ← calendar (spacedChar '-') s.toList
  let (_, s) ← dateEnd s
  let (k, s) ← clock (spacedChar ':') s
  let (nano, s) ← fraction s
  let (offset, s) ← reportZone (dropBlank s)
  if dropBlank s = [] then
    (({ k with nano } : Clock).on? c).bind (·.shiftClock? offset)
  else none

end FactorStudy.Timestamp
