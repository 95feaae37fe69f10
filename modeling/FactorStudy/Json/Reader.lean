import FactorStudy.Json.Basic
import FactorStudy.Decimal.Numeral
import FactorStudy.Text.Basic

/-!
# Reading JSON

A text is read from the front; every function returns what it leaves. Each nested value takes at
least one character, so a budget of one step per character is never used up.

A reader says which values it wants. One that is not wanted is passed over: it has to have the form
of a value, but what its strings say does not matter.
-/

namespace FactorStudy.Json

/-- Which values of a text are wanted. -/
inductive Wanted where
  | all
  | none
  /-- Of an object, the members of these names. -/
  | members (names : List String)

namespace Wanted

/-- Whether a value itself is wanted. -/
def self : Wanted → Bool
  | none => false
  | all | members _ => true

/-- What is wanted of a member of an object. -/
def member (w : Wanted) (name : String) : Wanted :=
  match w with
  | members names => if names.contains name then all else none
  | w => w

/-- What is wanted of an item of an array. -/
def item : Wanted → Wanted
  | members _ => all
  | w => w

end Wanted

/-- A text from its first character that is not white space between tokens. -/
def dropSpace (s : List Char) : List Char :=
  s.dropWhile fun c => c = ' ' || c = '\t' || c = '\n' || c = '\r'

/-- Four hexadecimal digits. -/
def codeUnit? : List Char → Option (Nat × List Char)
  | a :: b :: c :: d :: s => do
    let high ← Text.hexByte? a b
    let low ← Text.hexByte? c d
    return (high.toNat * 256 + low.toNat, s)
  | _ => none

/-- The character of an escape, after the backslash. A character beyond 16 bits is written as two
code units; neither half stands for anything alone, so a half is an escape only in a string that is
passed over. -/
def escape? (wanted : Bool) : List Char → Option (Char × List Char)
  | '"' :: s => some ('"', s)
  | '\\' :: s => some ('\\', s)
  | '/' :: s => some ('/', s)
  | 'b' :: s => some ('\x08', s)
  | 'f' :: s => some ('\x0c', s)
  | 'n' :: s => some ('\n', s)
  | 'r' :: s => some ('\r', s)
  | 't' :: s => some ('\t', s)
  | 'u' :: s => do
    let (unit, s) ← codeUnit? s
    if ¬ wanted then return ('\ufffd', s)
    else if 0xd800 ≤ unit ∧ unit < 0xdc00 then
      match s with
      | '\\' :: 'u' :: s =>
        let (low, s) ← codeUnit? s
        if 0xdc00 ≤ low ∧ low < 0xe000 then
          return (Char.ofNat (0x10000 + (unit - 0xd800) * 0x400 + (low - 0xdc00)), s)
        else none
      | _ => none
    else if 0xdc00 ≤ unit ∧ unit < 0xe000 then none
    else return (Char.ofNat unit, s)
  | _ => none

/-- The characters of a string after its opening quote, and the text after the closing one. -/
def characters? (wanted : Bool) : Nat → List Char → Option (List Char × List Char)
  | 0, _ => none
  | _ + 1, [] => none
  | fuel + 1, c :: s =>
    if c = '"' then some ([], s)
    else if c = '\\' then do
      let (d, s) ← escape? wanted s
      let (rest, s) ← characters? wanted fuel s
      return (d :: rest, s)
    else if c.toNat < 0x20 then none
    else do
      let (rest, s) ← characters? wanted fuel s
      return (c :: rest, s)

/-- A string after its opening quote. -/
def string? (wanted : Bool) (s : List Char) : Option (String × List Char) :=
  (characters? wanted (s.length + 1) s).map fun (cs, rest) => (String.ofList cs, rest)

/-- The digits after a point, of which there is at least one. -/
def fraction? : List Char → Option (List Char × List Char)
  | '.' :: s =>
    let digits := s.takeWhile Char.isDigit
    if digits = [] then none else some (digits, s.dropWhile Char.isDigit)
  | s => some ([], s)

/-- A complete exponent, or none at all. -/
def exponent? : List Char → Option (Int × List Char)
  | c :: s => if c = 'e' ∨ c = 'E' then Decimal.readExponent? (c :: s) else some (0, c :: s)
  | [] => some (0, [])

/-- The integers that are kept as integers. -/
def isSmall (n : Int) : Bool := -(Nat.pow 2 63 : Int) ≤ n && n < Nat.pow 2 64

/-- A number: an integer when it is written as one and small, else the nearest double. The integer
part has no superfluous zero, and minus zero is a double. -/
def number? (s : List Char) : Option (Json × List Char) := do
  let (minus, t) := match s with
    | '-' :: t => (true, t)
    | t => (false, t)
  let whole := t.takeWhile Char.isDigit
  let afterWhole := t.dropWhile Char.isDigit
  if whole = [] ∨ (whole.head? = some '0' ∧ whole ≠ ['0']) then none
  else
    let (fraction, afterFraction) ← fraction? afterWhole
    let (exponent, rest) ← exponent? afterFraction
    let size := Decimal.ofDigits whole
    let n : Int := if minus then -(size : Int) else size
    if afterWhole.length = rest.length ∧ isSmall n ∧ ¬ (minus ∧ size = 0) then
      return (integer n, rest)
    else
      let x := (⟨whole, fraction, exponent⟩ : Decimal.Numeral).toFloat
      return (double (if minus then -x else x), rest)

mutual

/-- A value at the front of a text, after white space. -/
def value? (w : Wanted) : Nat → List Char → Option (Json × List Char)
  | 0, _ => none
  | fuel + 1, s =>
    match dropSpace s with
    | '{' :: s =>
      match dropSpace s with
      | '}' :: s => some (object [], s)
      | s => (members? w fuel s).map fun (ms, rest) => (object ms, rest)
    | '[' :: s =>
      match dropSpace s with
      | ']' :: s => some (array [], s)
      | s => (items? w fuel s).map fun (js, rest) => (array js, rest)
    | '"' :: s => (string? w.self s).map fun (t, rest) => (string t, rest)
    | 't' :: 'r' :: 'u' :: 'e' :: s => some (bool true, s)
    | 'f' :: 'a' :: 'l' :: 's' :: 'e' :: s => some (bool false, s)
    | 'n' :: 'u' :: 'l' :: 'l' :: s => some (null, s)
    | s => number? s

/-- The items of an array from the first one to the closing bracket. -/
def items? (w : Wanted) : Nat → List Char → Option (List Json × List Char)
  | 0, _ => none
  | fuel + 1, s => do
    let (j, s) ← value? w.item fuel s
    match dropSpace s with
    | ',' :: s =>
      let (js, s) ← items? w fuel s
      return (j :: js, s)
    | ']' :: s => return ([j], s)
    | _ => none

/-- The members of an object from the first one to the closing brace. -/
def members? (w : Wanted) : Nat → List Char → Option (List (String × Json) × List Char)
  | 0, _ => none
  | fuel + 1, s =>
    match dropSpace s with
    | '"' :: s => do
      let (name, s) ← string? w.self s
      match dropSpace s with
      | ':' :: s =>
        let (j, s) ← value? (w.member name) fuel s
        match dropSpace s with
        | ',' :: s =>
          let (ms, s) ← members? w fuel s
          return ((name, j) :: ms, s)
        | '}' :: s => return ([(name, j)], s)
        | _ => none
      | _ => none
    | _ => none

end

/-- The value that a whole text holds, with what is wanted of it. -/
def readWanted? (w : Wanted) (s : String) : Option Json := do
  let text := s.toList
  let (j, rest) ← value? w (2 * text.length + 2) text
  if dropSpace rest = [] then return j else none

/-- The value that a whole text holds. -/
def read? (s : String) : Option Json := readWanted? .all s

end FactorStudy.Json
