import FactorStudy.Time.Date
import FactorStudy.Decimal.Text

/-!
# Timestamps

A timestamp is a date and a time of day to the nanosecond, without a time zone. The last second of
a minute may be followed by a leap second: that is written as second 60 and held as a fraction of
a second that has run past 1.
-/

namespace FactorStudy

/-- A date and a time of day. -/
structure Timestamp where
  date : Date
  /-- Seconds since midnight. -/
  second : Nat
  nano : Nat
  second_lt : second < 86400
  nano_lt : nano < 2000000000
  leap : 1000000000 ≤ nano → second % 60 = 59
deriving DecidableEq

namespace Timestamp

/-- The first moment of a day. -/
def midnight (date : Date) : Timestamp := ⟨date, 0, 0, by decide, by decide, by decide⟩

/-- The moment with the given hour, minute, second and nanosecond, where second 60 is a leap
second. -/
def of? (date : Date) (hour minute second nano : Nat) : Option Timestamp :=
  if h : hour < 24 ∧ minute < 60 ∧ second ≤ 60 ∧ nano < 1000000000 then
    if hs : second = 60 then
      some ⟨date, hour * 3600 + minute * 60 + 59, 1000000000 + nano, by omega, by omega,
        fun _ => by omega⟩
    else
      some ⟨date, hour * 3600 + minute * 60 + second, nano, by omega, by omega,
        fun _ => by omega⟩
  else none

/-- A number that grows with the time, and is different for different timestamps. -/
def key (t : Timestamp) : Int :=
  (t.date.key * 86400 + (t.second : Int)) * 2000000000 + (t.nano : Int)

instance : LT Timestamp := ⟨fun a b => a.key < b.key⟩
instance : LE Timestamp := ⟨fun a b => a.key ≤ b.key⟩

instance (a b : Timestamp) : Decidable (a < b) := inferInstanceAs (Decidable (a.key < b.key))
instance (a b : Timestamp) : Decidable (a ≤ b) := inferInstanceAs (Decidable (a.key ≤ b.key))

/-- The timestamp so many seconds later; a leap second counts as the second before it. -/
def addSeconds? (t : Timestamp) (seconds : Int) : Option Timestamp :=
  if seconds = 0 then some t
  else
    let leaping := 1000000000 ≤ t.nano
    let start : Int := t.second + (if leaping ∧ seconds < 0 then 1 else 0)
    let total := start + seconds
    (t.date.addDays? (total.fdiv 86400)).map fun date =>
      let second := (total.fmod 86400).toNat
      let nano := if leaping then t.nano - 1000000000 else t.nano
      ⟨date, second % 86400, nano % 1000000000, by omega, by omega, fun h => by omega⟩

/-- The moment so many nanoseconds after the first one of 1970. -/
def ofNanos? (nanos : Int) : Option Timestamp :=
  ((Date.of? 1970 1 1).bind fun date => (midnight date).addSeconds? (nanos.fdiv 1000000000)).map
    fun t => ⟨t.date, t.second, (nanos.fmod 1000000000).toNat % 1000000000, t.second_lt, by omega,
      fun h => by omega⟩

/-- The same moment on a clock that is `offset` seconds behind. A leap second stays one when the
offset is a whole number of minutes. -/
def shiftClock? (t : Timestamp) (offset : Int) : Option Timestamp :=
  let total := (t.second : Int) - offset
  (t.date.addDays? (total.fdiv 86400)).bind fun date =>
    let second := (total.fmod 86400).toNat
    if h : second < 86400 ∧ (1000000000 ≤ t.nano → second % 60 = 59) then
      some ⟨date, second, t.nano, h.1, t.nano_lt, h.2⟩
    else none

/-- Whether a time lies between two optional bounds, the bounds included. -/
def inRange (t : Timestamp) (start finish : Option Timestamp) : Bool :=
  start.all (fun s => s ≤ t) && finish.all (fun e => t ≤ e)

/-! ### Text -/

/-- A count in at least `width` digits. -/
def padded (width n : Nat) : String :=
  let digits := Decimal.digitsOf n
  String.ofList (List.replicate (width - digits.length) '0' ++ digits)

/-- A year in four digits; outside 0 to 9999 with its sign. -/
def yearText (year : Int) : String :=
  if 0 ≤ year ∧ year ≤ 9999 then padded 4 year.natAbs
  else (if year < 0 then "-" else "+") ++ padded 4 year.natAbs

def dateText (d : Date) : String :=
  yearText d.year ++ "-" ++ padded 2 d.month ++ "-" ++ padded 2 d.day

/-- Hours, minutes and seconds. -/
def clockText (t : Timestamp) : String :=
  let second := t.second % 60 + (if 1000000000 ≤ t.nano then 1 else 0)
  padded 2 (t.second / 3600) ++ ":" ++ padded 2 (t.second / 60 % 60) ++ ":" ++ padded 2 second

/-- A fraction of a second in three, six or nine digits, nothing when there is none. -/
def fractionText (t : Timestamp) : String :=
  let nano := t.nano % 1000000000
  if nano = 0 then ""
  else if nano % 1000000 = 0 then "." ++ padded 3 (nano / 1000000)
  else if nano % 1000 = 0 then "." ++ padded 6 (nano / 1000)
  else "." ++ padded 9 nano

/-- Date and time, with the given text between them. -/
def textWith (separator : String) (t : Timestamp) : String :=
  dateText t.date ++ separator ++ clockText t ++ fractionText t

/-- The form in which times are shown. -/
def text (t : Timestamp) : String := textWith " " t

/-- The form in which times stand in results. -/
def isoText (t : Timestamp) : String := textWith "T" t

/-- The form in which times stand in tables, to the second. -/
def columnText (t : Timestamp) : String := dateText t.date ++ " " ++ clockText t

end Timestamp

end FactorStudy
