import FactorStudy.Expr.Basic
import FactorStudy.Decimal.Numeral

/-!
# Reading expressions

The grammar, loosest first, with blanks allowed before every token:

* a sum is products joined by `+` and `-`, a product is signed terms joined by `*` and `/`, both
  grouped to the left;
* a signed term is a minus before a signed term, or a power;
* a power is a primary, with a signed term as exponent after `**`, so `**` groups to the right and
  binds tighter than a minus on its left;
* a primary is a number, a sum in parentheses, a call or a column.

Every way for an expression to stand inside another passes through a signed term, so `signed` is
the one recursive function, and it recurses on the nesting that is still allowed. All other
levels are given the reader of signed terms to use. A reader returns what it leaves unread together
with the proof that this is shorter, which is what lets the chains of operators and arguments end.

A fault remembers the unread text where it was noticed. Its position in the whole text is counted
from there at the very end (`parse`), so a position always falls between two characters.
-/

namespace FactorStudy

open Text (dropBlank length_dropBlank_le)

/-- Why a text is not an expression. The first group are faults of form, the others of meaning. -/
inductive ParseCause where
  | expected (what : String) (found : Option Char)
  | digitExpected
  | nestedTooDeeply
  | unreadInput (rest : String)
  | unknownFunction (name : String)
  | unknownColumn (name : String)
  | arity (f : Builtin) (actual : Nat)
  | window (f : Builtin) (argument : Nat)
deriving Repr, DecidableEq

namespace ParseCause

/-- Whether the text is well formed, and fails for a name, a count or a window. -/
def isSemantic : ParseCause → Bool
  | expected .. | digitExpected | nestedTooDeeply | unreadInput _ => false
  | unknownFunction _ | unknownColumn _ | arity .. | window .. => true

def message : ParseCause → String
  | expected what (some c) => s!"expected {what}, found '" ++ c.toString ++ "'"
  | expected what none => s!"expected {what}, found end of input"
  | digitExpected => "expected number"
  | nestedTooDeeply => "expression nested too deeply"
  | unreadInput rest => s!"unexpected input after expression: '" ++ rest ++ "'"
  | unknownFunction name => "unresolved identifier '" ++ name ++ "'"
  | unknownColumn name =>
    "unknown field '" ++ name ++ "' (expected open, high, low, close or volume)"
  | arity f actual => s!"{f.name} expects {f.arity} argument(s), found {actual}"
  | window f argument => s!"{f.name}: argument {argument} must be a non-negative integer literal"

end ParseCause

/-- A fault and its place in the text, in bytes. -/
structure ParseError where
  cause : ParseCause
  position : Nat
deriving Repr, DecidableEq

namespace ParseError

/-- A fault's text with its place. -/
def located (position : Nat) (message : String) : String :=
  s!"parse error at position {position}: {message}"

def message (e : ParseError) : String := located e.position e.cause.message

/-- The characters that take up exactly the first `n` bytes, if a character ends there. -/
def takeBytes? : Nat → List Char → Option (List Char)
  | 0, _ => some []
  | _ + 1, [] => none
  | n + 1, c :: s =>
    if c.utf8Size ≤ n + 1 then (takeBytes? (n + 1 - c.utf8Size) s).map (c :: ·) else none
termination_by _ s => s.length

/-- The input, a caret under the given position, and a message. The caret's column counts
characters; a position inside a character is taken as a column itself. -/
def underlined (input : String) (position : Nat) (message : String) : String :=
  let column := ((takeBytes? position input.toList).map List.length).getD position
  input ++ "\n" ++ String.ofList (List.replicate column ' ') ++ "^\n" ++ message

/-- The error as shown to the author of the input. -/
def inContext (e : ParseError) (input : String) : String :=
  underlined input e.position e.message

end ParseError

namespace Expr

/-- The greatest height of a tree, and the deepest nesting of signed terms in a text. -/
def maxDepth : Nat := 256

namespace Parser

/-- A fault, and the unread text where it was noticed. -/
structure Fault where
  cause : ParseCause
  unread : List Char

/-- A tree read from the front of a text, its height, and the text after it. -/
structure Parsed (s : List Char) where
  expr : Expr
  height : Nat
  rest : List Char
  shorter : rest.length < s.length

/-- Reads one tree from the front of a text. -/
abbrev Reader := (s : List Char) → Except Fault (Parsed s)

/-- The same tree, seen from an earlier place in the text. -/
def Parsed.widen {s t : List Char} (h : s.length ≤ t.length) (p : Parsed s) : Parsed t :=
  ⟨p.expr, p.height, p.rest, Nat.lt_of_lt_of_le p.shorter h⟩

/-- A reader that first drops blanks. -/
def skipping (read : Reader) : Reader := fun s => do
  return (← read (dropBlank s)).widen (length_dropBlank_le s)

/-- The height of a node above children of height `child`, unless that is too much. -/
def grow (child : Nat) (unread : List Char) : Except Fault Nat :=
  if child + 1 ≤ maxDepth then .ok (child + 1) else .error ⟨.nestedTooDeeply, unread⟩

/-- An operator at the very front of a text, and the text after it. -/
abbrev Operator := (s : List Char) → Option (BinaryOp × { r : List Char // r.length < s.length })

def sumOperator : Operator
  | '+' :: s => some (.add, ⟨s, by simp⟩)
  | '-' :: s => some (.sub, ⟨s, by simp⟩)
  | _ => none

/-- Two stars are the operator of powers, not of products. -/
def productOperator : Operator
  | '*' :: '*' :: _ => none
  | '*' :: s => some (.mul, ⟨s, by simp⟩)
  | '/' :: s => some (.div, ⟨s, by simp⟩)
  | _ => none

/-- Continues a chain of operands after its left part. -/
def chainFrom (operator : Operator) (operand : Reader) (left : Expr) (height : Nat)
    (s : List Char) : Except Fault (Expr × Nat × { r : List Char // r.length ≤ s.length }) :=
  match operator (dropBlank s) with
  | none => .ok (left, height, ⟨dropBlank s, length_dropBlank_le s⟩)
  | some (op, ⟨afterOp, hop⟩) => do
    let right ← operand afterOp
    let height ← grow (max height right.height) (dropBlank s)
    have hlt : right.rest.length < s.length :=
      Nat.lt_of_lt_of_le (Nat.lt_trans right.shorter hop) (length_dropBlank_le s)
    let (e, h, ⟨rest, hrest⟩) ← chainFrom operator operand (.binary op left right.expr) height
      right.rest
    return (e, h, ⟨rest, Nat.le_trans hrest (Nat.le_of_lt hlt)⟩)
termination_by s.length

/-- Operands joined by operators of one level, grouped to the left. -/
def chain (operator : Operator) (operand : Reader) : Reader := fun s => do
  let first ← operand s
  let (e, h, ⟨rest, hrest⟩) ← chainFrom operator operand first.expr first.height first.rest
  return ⟨e, h, rest, Nat.lt_of_le_of_lt hrest first.shorter⟩

/-- Products joined by `+` and `-`. -/
def sum (signed : Reader) : Reader := chain sumOperator (chain productOperator signed)

/-- A number at the front of a text. -/
def number : Reader := fun s =>
  match h : Decimal.readNumeral? s with
  | some (n, rest) =>
    .ok ⟨.literal n.toFloat, 1, rest, Decimal.length_lt_of_readNumeral? h⟩
  | none => .error ⟨.digitExpected, s⟩

/-- The given character, after blanks. -/
def expectChar (c : Char) (s : List Char) :
    Except Fault { r : List Char // r.length < s.length } :=
  match h : dropBlank s with
  | d :: rest =>
    if d = c then
      .ok ⟨rest, Nat.lt_of_lt_of_le (by simp [h]) (length_dropBlank_le s)⟩
    else .error ⟨.expected (String.ofList ['\'', c, '\'']) (some d), d :: rest⟩
  | [] => .error ⟨.expected (String.ofList ['\'', c, '\'']) none, []⟩

/-- An argument of a call, and the text at its first character. -/
structure Argument where
  expr : Expr
  height : Nat
  start : List Char

/-- The arguments of a call from the first one to the closing parenthesis. -/
def arguments (argument : Reader) (s : List Char) :
    Except Fault (List Argument × { r : List Char // r.length < s.length }) := do
  let start := dropBlank s
  have hstart : start.length ≤ s.length := length_dropBlank_le s
  let arg ← argument start
  have harg : (dropBlank arg.rest).length < s.length :=
    Nat.lt_of_le_of_lt (length_dropBlank_le _) (Nat.lt_of_lt_of_le arg.shorter hstart)
  match h : dropBlank arg.rest with
  | ',' :: more =>
    have hmore : more.length < s.length := by
      rw [h] at harg; exact Nat.lt_trans (by simp) harg
    let (others, ⟨rest, hrest⟩) ← arguments argument more
    return (⟨arg.expr, arg.height, start⟩ :: others, ⟨rest, Nat.lt_trans hrest hmore⟩)
  | ')' :: rest =>
    return ([⟨arg.expr, arg.height, start⟩], ⟨rest, by
      rw [h] at harg; exact Nat.lt_trans (by simp) harg⟩)
  | other => throw ⟨.expected "',' or ')'" other.head?, other⟩
termination_by s.length

/-- The arguments of a call after its opening parenthesis. -/
def argumentList (argument : Reader) (s : List Char) :
    Except Fault (List Argument × { r : List Char // r.length < s.length }) :=
  match h : dropBlank s with
  | ')' :: rest => .ok ([], ⟨rest, Nat.lt_of_lt_of_le (by simp [h]) (length_dropBlank_le s)⟩)
  | _ => arguments argument s

/-- Whether an argument is a whole number written in the text, so that it can be a window. -/
def isWindow : Expr → Bool
  | .literal v => Decimal.isWhole v
  | _ => false

/-- The call of a function on its arguments. The count is checked before the window. -/
def finishCall (f : Builtin) (args : List Argument) (start : List Char) :
    Except Fault (Expr × Nat) :=
  if args.length ≠ f.arity then .error ⟨.arity f args.length, start⟩
  else do
    if f.hasWindow then
      if let some last := args.getLast? then
        unless isWindow last.expr do
          throw ⟨.window f args.length, last.start⟩
    let height ← grow ((args.map (·.height)).foldl max 0) start
    return (.call f (args.map (·.expr)), height)

/-- The characters of a name. -/
def isNameChar (c : Char) : Bool := c.isAlphanum || c = '_'

/-- A call or a column, at its first character. -/
def name (signed : Reader) : Reader := fun s =>
  let word := String.ofList (s.takeWhile isNameChar)
  let afterName := s.dropWhile isNameChar
  if hlt : afterName.length < s.length then
    have hle : (dropBlank afterName).length < s.length :=
      Nat.lt_of_le_of_lt (length_dropBlank_le _) hlt
    match h : dropBlank afterName with
    | '(' :: inside =>
      match Builtin.named? word with
      | none => .error ⟨.unknownFunction word, s⟩
      | some f => do
        have hinside : inside.length < s.length := by
          rw [h] at hle; exact Nat.lt_trans (by simp) hle
        let (args, ⟨rest, hrest⟩) ← argumentList (sum signed) inside
        let (e, height) ← finishCall f args s
        return ⟨e, height, rest, Nat.lt_trans hrest hinside⟩
    | rest =>
      match Column.named? word with
      | some c => .ok ⟨.column c, 1, rest, by rw [h] at hle; exact hle⟩
      | none => .error ⟨.unknownColumn word, s⟩
  else .error ⟨.expected "expression" s.head?, s⟩

/-- A sum in parentheses, after the opening one. -/
def parenthesized (signed : Reader) : Reader := fun s => do
  let inner ← sum signed s
  let ⟨rest, hrest⟩ ← expectChar ')' inner.rest
  return ⟨inner.expr, inner.height, rest, Nat.lt_trans hrest inner.shorter⟩

/-- A number, a parenthesized sum, a call or a column, at its first character. -/
def primary (signed : Reader) : Reader := fun s =>
  match s with
  | '(' :: inside => do return (← parenthesized signed inside).widen (by simp)
  | c :: rest =>
    if c.isDigit ∨ c = '.' then number (c :: rest)
    else if c.isAlpha ∨ c = '_' then name signed (c :: rest)
    else .error ⟨.expected "expression" (some c), c :: rest⟩
  | [] => .error ⟨.expected "expression" none, []⟩

/-- A primary, with an exponent or without. -/
def power (signed : Reader) : Reader := fun s => do
  let base ← primary signed s
  have hle : (dropBlank base.rest).length ≤ base.rest.length := length_dropBlank_le _
  match h : dropBlank base.rest with
  | '*' :: '*' :: afterOp =>
    let exponent ← signed afterOp
    let height ← grow (max base.height exponent.height) ('*' :: '*' :: afterOp)
    have hexp : exponent.rest.length < base.rest.length := by
      rw [h] at hle
      exact Nat.lt_trans exponent.shorter
        (Nat.lt_of_lt_of_le (by simp only [List.length_cons]; omega) hle)
    return ⟨.binary .pow base.expr exponent.expr, height, exponent.rest,
      Nat.lt_trans hexp base.shorter⟩
  | rest => return ⟨base.expr, base.height, rest, by
      rw [h] at hle; exact Nat.lt_of_le_of_lt hle base.shorter⟩

/-- A minus before a tree: it is taken into a literal, and is a node above anything else. -/
def negate (e : Expr) (height : Nat) (unread : List Char) : Except Fault (Expr × Nat) :=
  match e with
  | .literal v => .ok (.literal (-v), height)
  | e => do return (.neg e, ← grow height unread)

/-- A signed term, when `nesting` more of them may stand inside each other. -/
def signed : Nat → Reader
  | 0 => skipping fun s => .error ⟨.nestedTooDeeply, s⟩
  | nesting + 1 => skipping fun s =>
    match s with
    | '-' :: afterMinus => do
      let operand ← signed nesting afterMinus
      let (e, height) ← negate operand.expr operand.height ('-' :: afterMinus)
      return ⟨e, height, operand.rest, Nat.lt_trans operand.shorter (by simp)⟩
    | s => power (signed nesting) s

/-- An expression that takes up the whole text. -/
def whole (s : List Char) : Except Fault Expr := do
  let p ← sum (signed maxDepth) s
  match dropBlank p.rest with
  | [] => return p.expr
  | rest => throw ⟨.unreadInput (String.ofList rest), rest⟩

end Parser

/-- The expression that a text denotes. -/
def parse (input : String) : Except ParseError Expr :=
  (Parser.whole input.toList).mapError fun fault =>
    ⟨fault.cause, Text.byteLength input.toList - Text.byteLength fault.unread⟩

end Expr

end FactorStudy
