import FactorStudy.Expr.Parser

/-!
# The grammar of expressions

What a text has to look like to be an expression, said without a reader. A phrase keeps everything
that was written, the blanks in front of every token included, so a text and its derivation are two
forms of the same thing; the tree that a phrase denotes forgets parentheses, blanks and spellings.

As in the reader, every way for an expression to stand inside another passes through a signed term.
The other levels are therefore parametric in the phrases `σ` that stand for signed terms, and
`Signed n` closes the loop: signed terms of which at most `n` are nested on any path. Each level
says three things of its phrases, collected in a `Nonterminal`: how they are written, what tree
they denote (none, when a name is unknown, a count is wrong or a window is not a whole number), and
how deeply signed terms are nested in them.
-/

namespace FactorStudy.Grammar

open Text (isBlank)
open Expr.Parser (isNameChar isWindow)

/-! ## Tokens -/

/-- The blanks in front of a token. -/
@[ext]
structure Gap where
  chars : List Char
  blank : ∀ c ∈ chars, isBlank c = true

/-- The exponent of a number: a letter, a sign or none, and at least one digit. -/
@[ext]
structure Exponent where
  letter : Char
  sign : List Char
  digits : List Char
  letter_mem : letter = 'e' ∨ letter = 'E'
  sign_mem : sign = [] ∨ sign = ['+'] ∨ sign = ['-']
  digits_digit : ∀ c ∈ digits, c.isDigit = true
  digits_ne : digits ≠ []

namespace Exponent

def text (x : Exponent) : List Char := x.letter :: (x.sign ++ x.digits)

def value (x : Exponent) : Int :=
  if x.sign = ['-'] then -(Decimal.ofDigits x.digits : Int) else Decimal.ofDigits x.digits

end Exponent

/-- A number as written: digits with at most one point and at least one digit, and an exponent or
none. -/
@[ext]
structure NumberToken where
  whole : List Char
  fraction : Option (List Char)
  exponent : Option Exponent
  whole_digit : ∀ c ∈ whole, c.isDigit = true
  fraction_digit : ∀ c ∈ fraction.getD [], c.isDigit = true
  digit : whole ≠ [] ∨ fraction.getD [] ≠ []

namespace NumberToken

/-- The point and the digits behind it. -/
def fractionText : Option (List Char) → List Char
  | none => []
  | some digits => '.' :: digits

def exponentText : Option Exponent → List Char
  | none => []
  | some x => x.text

def text (t : NumberToken) : List Char :=
  t.whole ++ (fractionText t.fraction ++ exponentText t.exponent)

/-- The decimal that is written. -/
def numeral (t : NumberToken) : Decimal.Numeral :=
  ⟨t.whole, t.fraction.getD [], (t.exponent.map Exponent.value).getD 0⟩

end NumberToken

/-- A name: a letter or an underscore, then letters, digits and underscores. -/
@[ext]
structure Name where
  first : Char
  rest : List Char
  first_mem : first.isAlpha = true ∨ first = '_'
  rest_mem : ∀ c ∈ rest, isNameChar c = true

namespace Name

def text (x : Name) : List Char := x.first :: x.rest

def word (x : Name) : String := String.ofList x.text

end Name

/-! ## Phrases -/

/-- What is said of the phrases of one level. -/
structure Nonterminal (σ : Type) where
  /-- How a phrase is written. -/
  text : σ → List Char
  /-- The tree it denotes, if its names, counts and windows are right. -/
  tree : σ → Option Expr
  /-- The greatest number of signed terms on a path into it. -/
  nesting : σ → Nat

/-- The deepest nesting in a list of phrases. -/
def Nonterminal.nestingAll {σ : Type} (S : Nonterminal σ) (phrases : List σ) : Nat :=
  (phrases.map S.nesting).foldr max 0

/-- An operator of one level and the operand after it. -/
structure Link (ops : List BinaryOp) (σ : Type) where
  gap : Gap
  op : BinaryOp
  op_mem : op ∈ ops
  operand : σ

/-- Operands joined by the operators of one level. -/
structure Chain (ops : List BinaryOp) (σ : Type) where
  first : σ
  links : List (Link ops σ)

namespace Chain

variable {ops : List BinaryOp} {σ : Type}

def linkText (S : Nonterminal σ) (k : Link ops σ) : List Char :=
  k.gap.chars ++ (k.op.symbol.toList ++ S.text k.operand)

/-- One more operand to the right of a tree. -/
def extend (S : Nonterminal σ) (left : Expr) (k : Link ops σ) : Option Expr :=
  (S.tree k.operand).map (Expr.binary k.op left)

/-- Chains are grouped to the left. -/
def nonterminal (ops : List BinaryOp) (S : Nonterminal σ) : Nonterminal (Chain ops σ) where
  text c := S.text c.first ++ c.links.flatMap (linkText S)
  tree c := (S.tree c.first).bind fun first => c.links.foldlM (extend S) first
  nesting c := S.nestingAll (c.first :: c.links.map (·.operand))

end Chain

def sumOps : List BinaryOp := [.add, .sub]

/-- A star here never starts `**`, because no signed term begins with a star. -/
def productOps : List BinaryOp := [.mul, .div]

abbrev Product (σ : Type) := Chain productOps σ

abbrev Sum (σ : Type) := Chain sumOps (Product σ)

/-- The sums over given signed terms. -/
def sums {σ : Type} (S : Nonterminal σ) : Nonterminal (Sum σ) :=
  Chain.nonterminal sumOps (Chain.nonterminal productOps S)

/-- One more argument of a call, after a comma. -/
structure MoreArgument (τ : Type) where
  gap : Gap
  argument : τ

/-- What follows the opening parenthesis of a call. -/
inductive Arguments (τ : Type) where
  | none (close : Gap)
  | some (first : τ) (more : List (MoreArgument τ)) (close : Gap)

namespace Arguments

variable {τ : Type}

def toList : Arguments τ → List τ
  | none _ => []
  | some first more _ => first :: more.map (·.argument)

def moreText (T : Nonterminal τ) (m : MoreArgument τ) : List Char :=
  m.gap.chars ++ ',' :: T.text m.argument

def text (T : Nonterminal τ) : Arguments τ → List Char
  | none close => close.chars ++ [')']
  | some first more close =>
    T.text first ++ (more.flatMap (moreText T) ++ (close.chars ++ [')']))

/-- The call of a function on trees: as many as it takes, the last one a whole number where it is a
window. -/
def callOf (f : Builtin) (args : List Expr) : Option Expr :=
  if args.length = f.arity ∧ (f.hasWindow → args.getLast?.any isWindow) then Option.some (.call f args)
  else Option.none

end Arguments

inductive Primary (σ : Type) where
  | number (token : NumberToken)
  | group (inner : Sum σ) (close : Gap)
  | call (name : Name) (gap : Gap) (arguments : Arguments (Sum σ))
  | column (name : Name)

namespace Primary

variable {σ : Type} (S : Nonterminal σ)

def text : Primary σ → List Char
  | number token => token.text
  | group inner close => '(' :: ((sums S).text inner ++ (close.chars ++ [')']))
  | call name gap arguments => name.text ++ (gap.chars ++ '(' :: arguments.text (sums S))
  | column name => name.text

def tree : Primary σ → Option Expr
  | number token => some (.literal token.numeral.toFloat)
  | group inner _ => (sums S).tree inner
  | call name _ arguments => do
    let f ← Builtin.named? name.word
    let args ← arguments.toList.mapM (sums S).tree
    Arguments.callOf f args
  | column name => (Column.named? name.word).map Expr.column

def nesting : Primary σ → Nat
  | number _ | column _ => 0
  | group inner _ => (sums S).nesting inner
  | call _ _ arguments => (sums S).nestingAll arguments.toList

def nonterminal : Nonterminal (Primary σ) := ⟨text S, tree S, nesting S⟩

end Primary

inductive Power (σ : Type) where
  | plain (base : Primary σ)
  | raised (base : Primary σ) (gap : Gap) (exponent : σ)

namespace Power

variable {σ : Type} (S : Nonterminal σ)

def text : Power σ → List Char
  | plain base => base.text S
  | raised base gap exponent => base.text S ++ (gap.chars ++ '*' :: '*' :: S.text exponent)

def tree : Power σ → Option Expr
  | plain base => base.tree S
  | raised base _ exponent => do
    let b ← base.tree S
    let e ← S.tree exponent
    return .binary .pow b e

def nesting : Power σ → Nat
  | plain base => base.nesting S
  | raised base _ exponent => max (base.nesting S) (S.nesting exponent)

def nonterminal : Nonterminal (Power σ) := ⟨text S, tree S, nesting S⟩

end Power

/-- A minus over a tree: part of a literal, a node above anything else. -/
def negated : Expr → Expr
  | .literal v => .literal (-v)
  | e => .neg e

inductive SignedTerm (σ : Type) where
  | minus (gap : Gap) (operand : σ)
  | plain (gap : Gap) (power : Power σ)

namespace SignedTerm

variable {σ : Type} (S : Nonterminal σ)

def text : SignedTerm σ → List Char
  | minus gap operand => gap.chars ++ '-' :: S.text operand
  | plain gap power => gap.chars ++ power.text S

def tree : SignedTerm σ → Option Expr
  | minus _ operand => (S.tree operand).map negated
  | plain _ power => power.tree S

def nesting : SignedTerm σ → Nat
  | minus _ operand => S.nesting operand + 1
  | plain _ power => power.nesting S + 1

def nonterminal : Nonterminal (SignedTerm σ) := ⟨text S, tree S, nesting S⟩

end SignedTerm

/-- Signed terms of which at most `n` are nested on any path. -/
def Signed : Nat → Type
  | 0 => Empty
  | n + 1 => SignedTerm (Signed n)

def signedTerms : (n : Nat) → Nonterminal (Signed n)
  | 0 => ⟨Empty.elim, Empty.elim, Empty.elim⟩
  | n + 1 => SignedTerm.nonterminal (signedTerms n)

/-- A whole text with its structure: a sum, and the blanks behind it. -/
structure Derivation (n : Nat) where
  body : Sum (Signed n)
  trailing : Gap

namespace Derivation

variable {n : Nat}

def text (d : Derivation n) : List Char := (sums (signedTerms n)).text d.body ++ d.trailing.chars

def tree (d : Derivation n) : Option Expr := (sums (signedTerms n)).tree d.body

def nesting (d : Derivation n) : Nat := (sums (signedTerms n)).nesting d.body

end Derivation

end FactorStudy.Grammar
