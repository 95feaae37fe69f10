import FactorStudy.Text.Basic

/-!
# Reading numbers

A numeral is its digits and a power of ten; its value is the double nearest to that decimal. The
three formats that hold numbers (expressions, tables and settings, stored reports) differ in which
texts they accept, and agree on what an accepted text is worth.
-/

namespace FactorStudy.Decimal

/-- A positive decimal as written: the digits before and after the point, and the exponent. -/
structure Numeral where
  whole : List Char
  fraction : List Char
  exponent : Int
deriving Repr, DecidableEq

/-- The count a list of decimal digits stands for. -/
def ofDigits (digits : List Char) : Nat :=
  digits.foldl (fun n c => n * 10 + (c.toNat - '0'.toNat)) 0

/-- The double nearest to `m * 10 ^ e`. Beyond the range of doubles it is infinite or zero, which
the first two tests settle without forming a huge power. -/
def nearest (m : Nat) (e : Int) : Float :=
  if m = 0 then 0
  else
    let size := (Nat.toDigits 10 m).length + e
    if 400 < size then 1.0 / 0.0
    else if size < -400 then 0
    else Float.ofScientific m (e < 0) e.natAbs

/-- The double nearest to the numeral. -/
def Numeral.toFloat (n : Numeral) : Float :=
  nearest (ofDigits (n.whole ++ n.fraction)) (n.exponent - n.fraction.length)

/-- A sign in front of a magnitude: whether it is a minus, and the rest. -/
def splitSign : List Char → Bool × List Char
  | '-' :: s => (true, s)
  | '+' :: s => (false, s)
  | s => (false, s)

/-- The exponent after an `e` or `E`, when at least one digit follows, and what is left. -/
def readExponent? : List Char → Option (Int × List Char)
  | c :: s =>
    if c = 'e' ∨ c = 'E' then
      let (minus, t) := splitSign s
      if t.takeWhile Char.isDigit = [] then none
      else
        let size : Int := ofDigits (t.takeWhile Char.isDigit)
        some (if minus then -size else size, t.dropWhile Char.isDigit)
    else none
  | [] => none

/-- The exponent if it is complete, else 0 and nothing taken. -/
def readExponent (s : List Char) : Int × List Char := (readExponent? s).getD (0, s)

/-- The digits after a point, if a point comes first. -/
def readFraction : List Char → List Char × List Char
  | '.' :: s => (s.takeWhile Char.isDigit, s.dropWhile Char.isDigit)
  | s => ([], s)

/-- The longest numeral at the start of a text: digits with at most one point and at least one
digit, then an exponent if it is complete. -/
def readNumeral? (s : List Char) : Option (Numeral × List Char) :=
  let whole := s.takeWhile Char.isDigit
  let (fraction, afterDigits) := readFraction (s.dropWhile Char.isDigit)
  if whole = [] ∧ fraction = [] then none
  else
    let (exponent, rest) := readExponent afterDigits
    some (⟨whole, fraction, exponent⟩, rest)

theorem length_splitSign_le (s : List Char) : (splitSign s).2.length ≤ s.length := by
  unfold splitSign
  split <;> simp

theorem length_readExponent_le (s : List Char) : (readExponent s).2.length ≤ s.length := by
  unfold readExponent
  cases s with
  | nil => simp [readExponent?]
  | cons c s =>
    have hsign := length_splitSign_le s
    have hdrop := (List.dropWhile_sublist Char.isDigit (l := (splitSign s).2)).length_le
    simp only [readExponent?]
    split
    · split
      · simp
      · simp only [Option.getD_some, List.length_cons]
        omega
    · simp

/-- The digits of a fraction and the rest are no longer than the text they are taken from. -/
theorem length_readFraction_le (s : List Char) :
    (readFraction s).1.length + (readFraction s).2.length ≤ s.length := by
  unfold readFraction
  split
  · rename_i t
    have h := congrArg List.length (List.takeWhile_append_dropWhile (p := Char.isDigit) (l := t))
    simp only [List.length_append] at h
    simp only [List.length_cons]
    omega
  · simp

/-- A numeral takes at least one character. -/
theorem length_lt_of_readNumeral? {s t : List Char} {n : Numeral}
    (h : readNumeral? s = some (n, t)) : t.length < s.length := by
  have hsplit := congrArg List.length (List.takeWhile_append_dropWhile (p := Char.isDigit) (l := s))
  have hfrac := length_readFraction_le (s.dropWhile Char.isDigit)
  have hexp := length_readExponent_le (readFraction (s.dropWhile Char.isDigit)).2
  simp only [List.length_append] at hsplit
  simp only [readNumeral?] at h
  split at h
  · simp at h
  · rename_i hne
    simp only [Option.some.injEq, Prod.mk.injEq] at h
    rw [← h.2]
    have hpos : 0 < (s.takeWhile Char.isDigit).length
        + (readFraction (s.dropWhile Char.isDigit)).1.length := by
      rcases Nat.eq_zero_or_pos ((s.takeWhile Char.isDigit).length
        + (readFraction (s.dropWhile Char.isDigit)).1.length) with h0 | h0
      · exact absurd
          ⟨List.length_eq_zero_iff.1 (by omega), List.length_eq_zero_iff.1 (by omega)⟩ hne
      · exact h0
    omega

/-- Why a text is not a number. -/
inductive NumberFault where
  | empty
  | malformed
deriving Repr, DecidableEq

def NumberFault.message : NumberFault → String
  | .empty => "cannot parse float from empty string"
  | .malformed => "invalid float literal"

/-- A whole text as a number: an optional sign, then a numeral or, in any mix of cases, `inf`,
`infinity` or `nan`. -/
def readFloat (s : List Char) : Except NumberFault Float :=
  if s = [] then .error .empty
  else
    let (minus, t) := splitSign s
    let give (x : Float) : Except NumberFault Float := .ok (if minus then -x else x)
    let word := String.ofList (t.map Char.toLower)
    if word = "inf" ∨ word = "infinity" then give (1.0 / 0.0)
    else if word = "nan" then give (0.0 / 0.0)
    else
      match readNumeral? t with
      | some (n, []) => give n.toFloat
      | _ => .error .malformed

/-- The whole number a text of digits and an optional sign stands for, when it lies in the given
range. -/
def readInteger? (lo hi : Int) (s : List Char) : Option Int :=
  let (minus, t) := splitSign s
  if t ≠ [] ∧ t.all Char.isDigit then
    let size : Int := ofDigits t
    let value := if minus then -size else size
    if lo ≤ value ∧ value ≤ hi then some value else none
  else none

/-- A count of at most 64 bits; a plus sign is allowed, a minus sign is not. -/
def readCount? (s : List Char) : Option Nat :=
  if s.head? = some '-' then none else (readInteger? 0 (Nat.pow 2 64 - 1) s).map Int.toNat

/-- A signed 64-bit integer. -/
def readInt64? (s : List Char) : Option Int :=
  readInteger? (-(Nat.pow 2 63 : Int)) (Nat.pow 2 63 - 1) s

end FactorStudy.Decimal
