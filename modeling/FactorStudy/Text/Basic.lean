/-!
# Characters and bytes

White space is the characters with the Unicode property White_Space: texts are trimmed of them, and
they may stand between the tokens of an expression. Hexadecimal digits make up the escapes in which
stored texts write characters and addresses write single bytes.
-/

namespace FactorStudy.Text

/-! ## White space -/

/-- The Unicode property White_Space. -/
def isBlank (c : Char) : Bool :=
  let n := c.toNat
  (0x9 ≤ n && n ≤ 0xd) || n == 0x20 || n == 0x85 || n == 0xa0 || n == 0x1680
    || (0x2000 ≤ n && n ≤ 0x200a) || n == 0x2028 || n == 0x2029 || n == 0x202f || n == 0x205f
    || n == 0x3000

/-- The text from its first character that is not blank. -/
def dropBlank (s : List Char) : List Char := s.dropWhile isBlank

/-- The text without blanks at either end. -/
def trimBlank (s : List Char) : List Char := (dropBlank (dropBlank s).reverse).reverse

/-- The bytes a text takes in UTF-8. -/
def byteLength (s : List Char) : Nat := s.foldr (fun c n => c.utf8Size + n) 0

theorem length_dropBlank_le (s : List Char) : (dropBlank s).length ≤ s.length :=
  (List.dropWhile_sublist isBlank).length_le

theorem dropBlank_suffix (s : List Char) : dropBlank s <:+ s := List.dropWhile_suffix isBlank

/-! ## Hexadecimal digits -/

/-- What a digit stands for. -/
def hexDigit? (c : Char) : Option Nat :=
  if c.isDigit then some (c.toNat - '0'.toNat)
  else if 'a' ≤ c ∧ c ≤ 'f' then some (c.toNat - 'a'.toNat + 10)
  else if 'A' ≤ c ∧ c ≤ 'F' then some (c.toNat - 'A'.toNat + 10)
  else none

/-- The byte that two digits stand for. -/
def hexByte? (a b : Char) : Option UInt8 := do
  return UInt8.ofNat ((← hexDigit? a) * 16 + (← hexDigit? b))

/-- The bytes of a text in which a percent sign before two digits stands for a byte. Any other
percent sign stands for itself. -/
def percentBytes : List Char → List UInt8
  | '%' :: a :: b :: s =>
    match hexByte? a b with
    | some byte => byte :: percentBytes s
    | none => String.utf8EncodeChar '%' ++ percentBytes (a :: b :: s)
  | c :: s => String.utf8EncodeChar c ++ percentBytes s
  | [] => []

/-- The text that is written with percent signs, up to the first byte that is zero. -/
def percentDecode (s : List Char) : String :=
  let bytes : ByteArray := ⟨((percentBytes s).takeWhile (· != 0)).toArray⟩
  (String.fromUTF8? bytes).getD "\ufffd"

end FactorStudy.Text
