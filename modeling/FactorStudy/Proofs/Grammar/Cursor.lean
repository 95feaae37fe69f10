import FactorStudy.Proofs.Grammar.Longest
import FactorStudy.Proofs.Grammar.Position

/-!
# Reading with a byte position

The readers are handed what is left of a text. A reader that keeps a position in bytes instead cuts
the text there each time it looks at what comes next, and a cut inside a character ends the program.
Here such readers are written out for every level. They move from character to character in loops,
go back where a letter `e` is not an exponent after all, and cut numbers and names out of the text
between two positions. There is no result where a cut fails, where a loop goes on longer than the
text, or where what was cut out as a number is none.

The second half is about the moves alone. At the place of an end of the text the cursor sees that
end (`runFrom_remaining`), and every move takes it to the place of a shorter one: past a character,
past all characters of a kind, past a fraction or an exponent. The shape of each lemma is

    (move input).runFrom (place input s) = some (.ok .., place input (what is left of s))

for the ends `s` of the text. The readers do nothing else with the text, so they need no more.
-/

namespace FactorStudy.Grammar

open Text (isBlank dropBlank byteLength)
open Decimal (readFraction readExponent)
open FactorStudy.Expr (maxDepth)
open Expr.Parser

/-! ## The cursor -/

/-- What follows the first `n` bytes, if a character ends there. -/
def dropBytes? (n : Nat) (s : List Char) : Option (List Char) :=
  (ParseError.takeBytes? n s).map fun before => s.drop before.length

/-- A computation at a position in bytes. It may fail, and it may come to nothing. -/
abbrev Seeking := ExceptT ParseError (StateT Nat Option)

/-- The result, if there is one, with the position behind it. -/
def Seeking.runFrom {α : Type} (x : Seeking α) (position : Nat) :
    Option (Except ParseError α × Nat) :=
  x.run.run position

namespace Cursor

/-- A step that does not move. -/
def still {α : Type} (x : Except ParseError α) : Seeking α := MonadExcept.ofExcept x

/-- The value if there is one; without it the program ends. -/
def orEnd {α : Type} (x : Option α) : Seeking α := fun position =>
  x.map fun a => (.ok a, position)

section Moves

variable (input : String)

/-- The text from the position on. -/
def remaining : Seeking (List Char) := do orEnd (dropBytes? (← get) input.toList)

/-- The text between two positions. -/
def slice (start stop : Nat) : Seeking (List Char) :=
  if start ≤ stop then
    orEnd ((dropBytes? start input.toList).bind (ParseError.takeBytes? (stop - start)))
  else orEnd none

def peek : Seeking (Option Char) := do return (← remaining input).head?

/-- Moves past the next character. -/
def advance : Seeking (Option Char) := do
  match ← peek input with
  | some c => do
    modify (· + c.utf8Size)
    return some c
  | none => return none

/-- Moves past the next character if it is of a kind, and says whether it did. -/
def accept (kind : Char → Bool) : Seeking Bool := do
  if (← peek input).any kind then do
    let _ ← advance input
    return true
  else return false

/-- Moves past all characters of a kind, and counts them. It looks at most so many times. -/
def acceptAll (kind : Char → Bool) : Nat → Seeking Nat
  | 0 => orEnd none
  | looks + 1 => do
    if ← accept input kind then do
      let more ← acceptAll kind looks
      return more + 1
    else return 0

/-- Looks no more often than the text has characters, and once at its end. -/
def skip (kind : Char → Bool) : Seeking Nat := acceptAll input kind (input.length + 1)

/-- Something else was expected here than what comes next. -/
def unexpected {α : Type} (what : String) : Seeking α := do
  throw ⟨.expected what (← peek input), ← get⟩

/-- The given character, after blanks. -/
def expectChar (c : Char) : Seeking Unit := do
  let _ ← skip input isBlank
  if ← accept input (· == c) then return () else unexpected input (String.ofList ['\'', c, '\''])

def identifier : Seeking String := do
  let start ← get
  let _ ← skip input isNameChar
  return String.ofList (← slice input start (← get))

/-- The digits after a point, if a point comes first. -/
def fraction : Seeking Nat := do
  if ← accept input (· == '.') then skip input Char.isDigit else return 0

/-- An exponent, if one comes. Where no digit follows its letter, back to that letter. -/
def exponent : Seeking Unit := do
  let mark ← get
  if ← accept input fun c => c == 'e' || c == 'E' then do
    let _ ← accept input isSign
    if (← skip input Char.isDigit) = 0 then set mark else return ()
  else return ()

end Moves

/-! ## The readers -/

/-- Reads one tree from the position on, with its height. -/
abbrev Reader := Seeking (Expr × Nat)

/-- The height of a node above children of height `child`, unless that is too much. -/
def deepen (child position : Nat) : Except ParseError Nat :=
  if child + 1 ≤ maxDepth then .ok (child + 1) else .error ⟨.nestedTooDeeply, position⟩

/-- An argument of a call, and the position of its first character. -/
structure Argument where
  expr : Expr
  height : Nat
  position : Nat

/-- The call of a function on its arguments. The count is checked before the window. -/
def finishCall (f : Builtin) (args : List Argument) (start : Nat) :
    Except ParseError (Expr × Nat) :=
  if args.length ≠ f.arity then .error ⟨.arity f args.length, start⟩
  else do
    if f.hasWindow then
      if let some last := args.getLast? then
        unless isWindow last.expr do
          throw ⟨.window f args.length, last.position⟩
    let height ← deepen ((args.map (·.height)).foldl max 0) start
    return (.call f (args.map (·.expr)), height)

/-- A minus before a tree: it is taken into a literal, and is a node above anything else. -/
def negate (e : Expr) (height position : Nat) : Except ParseError (Expr × Nat) :=
  match e with
  | .literal v => .ok (.literal (-v), height)
  | e => do return (.neg e, ← deepen height position)

section Readers

variable (input : String)

/-- Continues a chain of operands after its left part, over at most the given number of links. -/
def links (operator : Operator) (operand : Reader) : Nat → Expr → Nat → Reader
  | 0, _, _ => orEnd none
  | fuel + 1, left, height => do
    let _ ← skip input isBlank
    match operator (← remaining input) with
    | none => return (left, height)
    | some (op, _) => do
      let start ← get
      let _ ← advance input
      let right ← operand
      let height ← still (deepen (max height right.2) start)
      links operator operand fuel (.binary op left right.1) height

def chain (operator : Operator) (operand : Reader) : Reader := do
  let first ← operand
  links input operator operand (input.length + 1) first.1 first.2

def sum (signed : Reader) : Reader :=
  chain input sumOperator (chain input productOperator signed)

def number : Reader := do
  let start ← get
  let whole ← skip input Char.isDigit
  let fraction ← fraction input
  if whole + fraction = 0 then throw ⟨.digitExpected, start⟩
  else do
    exponent input
    let text ← slice input start (← get)
    let value ← orEnd (Decimal.readFloat text).toOption
    return (.literal value, 1)

/-- The arguments of a call from the first one on, at most the given number of them. -/
def arguments (argument : Reader) : Nat → Seeking (List Argument)
  | 0 => orEnd none
  | fuel + 1 => do
    let _ ← skip input isBlank
    let start ← get
    let arg ← argument
    let _ ← skip input isBlank
    if ← accept input (· == ',') then do
      let others ← arguments argument fuel
      return ⟨arg.1, arg.2, start⟩ :: others
    else if ← accept input (· == ')') then return [⟨arg.1, arg.2, start⟩]
    else unexpected input "',' or ')'"

def argumentList (argument : Reader) : Seeking (List Argument) := do
  let _ ← skip input isBlank
  if ← accept input (· == ')') then return []
  else arguments input argument (input.length + 1)

/-- The call of a function whose name stands at `start`, after the opening parenthesis. -/
def call (signed : Reader) (f : Builtin) (start : Nat) : Reader := do
  let args ← argumentList input (sum input signed)
  still (finishCall f args start)

def name (signed : Reader) : Reader := do
  let start ← get
  let word ← identifier input
  let _ ← skip input isBlank
  if (← peek input) = some '(' then
    match Builtin.named? word with
    | none => throw ⟨.unknownFunction word, start⟩
    | some f => do
      let _ ← advance input
      call input signed f start
  else
    match Column.named? word with
    | some c => return (.column c, 1)
    | none => throw ⟨.unknownColumn word, start⟩

def parenthesized (signed : Reader) : Reader := do
  let inner ← sum input signed
  expectChar input ')'
  return inner

def primary (signed : Reader) : Reader := do
  let _ ← skip input isBlank
  match ← peek input with
  | some c =>
    if c.isDigit ∨ c = '.' then number input
    else if c = '(' then do
      let _ ← advance input
      parenthesized input signed
    else if c.isAlpha ∨ c = '_' then name input signed
    else unexpected input "expression"
  | none => unexpected input "expression"

/-- The operator of powers is two bytes long. -/
def power (signed : Reader) : Reader := do
  let base ← primary input signed
  let _ ← skip input isBlank
  if ['*', '*'].isPrefixOf (← remaining input) then do
    let start ← get
    set (start + 2)
    let exponent ← signed
    let height ← still (deepen (max base.2 exponent.2) start)
    return (.binary .pow base.1 exponent.1, height)
  else return base

/-- A signed term at its first character. -/
def term (signed : Reader) : Reader := do
  if (← peek input) = some '-' then do
    let start ← get
    let _ ← advance input
    let operand ← signed
    still (negate operand.1 operand.2 start)
  else power input signed

/-- A signed term, when `nesting` more of them may stand inside each other. -/
def signed : Nat → Reader
  | 0 => do
    let _ ← skip input isBlank
    throw ⟨.nestedTooDeeply, ← get⟩
  | nesting + 1 => do
    let _ ← skip input isBlank
    term input (signed nesting)

/-- An expression that takes up the whole text. -/
def whole : Seeking Expr := do
  let p ← sum input (signed input maxDepth)
  let _ ← skip input isBlank
  if (← get) < input.utf8ByteSize then
    throw ⟨.unreadInput (String.ofList (← remaining input)), ← get⟩
  else return p.1

/-- The expression that a text denotes, if the program does not end before. -/
def parse : Option (Except ParseError Expr) := ((whole input).runFrom 0).map Prod.fst

end Readers

end Cursor

/-! ## Runs -/

section Runs

variable {α β : Type} {x : Seeking α} {n n' : Nat}

/-- The first step moves from one position to another, and the second one goes on from there. -/
theorem runFrom_after {f : α → Seeking β} {a : α} (h : x.runFrom n = some (.ok a, n')) :
    (x >>= f).runFrom n = (f a).runFrom n' := by
  show Option.bind (x.runFrom n) _ = _
  rw [h]
  rfl

/-- Behind a step that fails there are no others. -/
theorem runFrom_failed {f : α → Seeking β} {err : ParseError}
    (h : x.runFrom n = some (.error err, n')) :
    (x >>= f).runFrom n = some (.error err, n') := by
  show Option.bind (x.runFrom n) _ = _
  rw [h]
  rfl

theorem runFrom_position (n : Nat) : (get : Seeking Nat).runFrom n = some (.ok n, n) := rfl

end Runs

/-! ## Moves -/

theorem dropBytes?_append (a b : List Char) : dropBytes? (byteLength a) (a ++ b) = some b := by
  rw [dropBytes?, takeBytes?_append, Option.map_some, List.drop_left]

section Moves

variable {input : String} {s : List Char}

/-- The bytes in front of an end of the text. -/
theorem place_of_append {a : List Char} (h : a ++ s = input.toList) :
    place input s = byteLength a := by
  rw [place, ← h, byteLength_append, Nat.add_sub_cancel]

theorem dropBytes?_place (hs : s <:+ input.toList) :
    dropBytes? (place input s) input.toList = some s := by
  obtain ⟨a, ha⟩ := hs
  rw [place_of_append ha, ← ha, dropBytes?_append]

/-- No loop over the text goes on longer than this. -/
theorem length_lt_of_suffix_input (hs : s <:+ input.toList) : s.length < input.length + 1 := by
  have hle := hs.length_le
  rw [String.length_toList] at hle
  exact Nat.lt_succ_of_le hle

/-- **What the cursor sees.** At the place of an end of the text it is that end. -/
theorem runFrom_remaining (hs : s <:+ input.toList) :
    (Cursor.remaining input).runFrom (place input s) = some (.ok s, place input s) := by
  rw [Cursor.remaining, runFrom_after (runFrom_position _), dropBytes?_place hs]
  rfl

theorem runFrom_peek (hs : s <:+ input.toList) :
    (Cursor.peek input).runFrom (place input s) = some (.ok s.head?, place input s) := by
  rw [Cursor.peek, runFrom_after (runFrom_remaining hs)]
  rfl

/-- What is between two ends of the text, cut out between their places. -/
theorem runFrom_slice {a b : List Char} (hs : a ++ b <:+ input.toList) (n : Nat) :
    (Cursor.slice input (place input (a ++ b)) (place input b)).runFrom n = some (.ok a, n) := by
  have hle : place input (a ++ b) ≤ place input b := place_le_place (List.suffix_append a b)
  have hbytes : place input b - place input (a ++ b) = byteLength a := by
    obtain ⟨before, hbefore⟩ := hs
    rw [place_of_append hbefore, place_of_append ((List.append_assoc _ _ _).trans hbefore),
      byteLength_append, Nat.add_sub_cancel_left]
  rw [Cursor.slice, if_pos hle, dropBytes?_place hs, Option.bind_some, hbytes, takeBytes?_append]
  rfl

/-- The next place is as many bytes further on as the character between takes up. -/
theorem place_cons {c : Char} (hs : c :: s <:+ input.toList) :
    place input (c :: s) + c.utf8Size = place input s := by
  obtain ⟨a, ha⟩ := hs
  rw [place_of_append ha, place_of_append ((List.append_assoc a [c] s).trans ha),
    byteLength_append]
  rfl

theorem runFrom_advance {c : Char} (hs : c :: s <:+ input.toList) :
    (Cursor.advance input).runFrom (place input (c :: s)) = some (.ok (some c), place input s) := by
  rw [Cursor.advance, runFrom_after (runFrom_peek hs), ← place_cons hs]
  rfl

section Accept

variable {kind : Char → Bool}

theorem runFrom_accept {c : Char} (hc : kind c = true) (hs : c :: s <:+ input.toList) :
    (Cursor.accept input kind).runFrom (place input (c :: s)) =
      some (.ok true, place input s) := by
  rw [Cursor.accept, runFrom_after (runFrom_peek hs), List.head?_cons, Option.any_some, if_pos hc,
    runFrom_after (runFrom_advance hs)]
  rfl

theorem runFrom_accept_of_stopsAt (hstop : StopsAt kind s) (hs : s <:+ input.toList) :
    (Cursor.accept input kind).runFrom (place input s) = some (.ok false, place input s) := by
  have hnone : s.head?.any kind = false := by
    cases s with
    | nil => rfl
    | cons c s => exact hstop c rfl
  rw [Cursor.accept, runFrom_after (runFrom_peek hs), hnone, if_neg Bool.false_ne_true]
  rfl

/-- The induction is on how often it looks, which is once more than there are characters left. -/
theorem runFrom_acceptAll (looks : Nat) : ∀ {s : List Char}, s <:+ input.toList →
    s.length < looks → (Cursor.acceptAll input kind looks).runFrom (place input s) =
      some (.ok (s.takeWhile kind).length, place input (s.dropWhile kind)) := by
  induction looks with
  | zero =>
    intro s hs hlt
    exact absurd hlt (Nat.not_lt_zero _)
  | succ looks ih =>
    intro s hs hlt
    rw [Cursor.acceptAll]
    -- at the end and at another character it has looked and stops
    cases s with
    | nil =>
      rw [runFrom_after (runFrom_accept_of_stopsAt (fun c hc => by cases hc) hs)]
      rfl
    | cons c s =>
      cases hc : kind c with
      | true =>
        have hs' := (List.suffix_cons c s).trans hs
        rw [runFrom_after (runFrom_accept hc hs), if_pos rfl,
          runFrom_after (ih hs' (Nat.lt_of_succ_lt_succ hlt)), List.takeWhile_cons_of_pos hc,
          List.dropWhile_cons_of_pos hc]
        rfl
      | false =>
        have hstop : StopsAt kind (c :: s) := stopsAt_cons hc
        rw [runFrom_after (runFrom_accept_of_stopsAt hstop hs), if_neg Bool.false_ne_true,
          List.takeWhile_cons_of_neg (by rw [hc]; exact Bool.false_ne_true),
          List.dropWhile_cons_of_neg (by rw [hc]; exact Bool.false_ne_true)]
        rfl

theorem runFrom_skip (kind : Char → Bool) (hs : s <:+ input.toList) :
    (Cursor.skip input kind).runFrom (place input s) =
      some (.ok (s.takeWhile kind).length, place input (s.dropWhile kind)) := by
  exact runFrom_acceptAll _ hs (length_lt_of_suffix_input hs)

end Accept

theorem runFrom_identifier (hs : s <:+ input.toList) :
    (Cursor.identifier input).runFrom (place input s) =
      some (.ok (String.ofList (s.takeWhile isNameChar)),
        place input (s.dropWhile isNameChar)) := by
  have hsplit := List.takeWhile_append_dropWhile (p := isNameChar) (l := s)
  have hslice := runFrom_slice (a := s.takeWhile isNameChar) (b := s.dropWhile isNameChar)
    (by rwa [hsplit]) (place input (s.dropWhile isNameChar))
  rw [hsplit] at hslice
  rw [Cursor.identifier, runFrom_after (runFrom_position _),
    runFrom_after (runFrom_skip isNameChar hs), runFrom_after (runFrom_position _),
    runFrom_after hslice]
  rfl

/-- A text stops where the one character that is asked for does not come. -/
theorem stopsAt_of_ne {c : Char} (h : ∀ u, s ≠ c :: u) : StopsAt (· == c) s := by
  intro d hd
  obtain ⟨u, rfl⟩ := List.head?_eq_some_iff.mp hd
  exact beq_eq_false_iff_ne.mpr fun hdc => h u (hdc ▸ rfl)

theorem runFrom_fraction (hs : s <:+ input.toList) :
    (Cursor.fraction input).runFrom (place input s) =
      some (.ok (readFraction s).1.length, place input (readFraction s).2) := by
  rw [Cursor.fraction]
  by_cases hpoint : ∃ u, s = '.' :: u
  · obtain ⟨u, rfl⟩ := hpoint
    rw [runFrom_after (runFrom_accept rfl hs), if_pos rfl]
    exact runFrom_skip Char.isDigit ((List.suffix_cons '.' u).trans hs)
  · rw [not_exists] at hpoint
    rw [runFrom_after (runFrom_accept_of_stopsAt (stopsAt_of_ne hpoint) hs),
      if_neg Bool.false_ne_true,
      NumberToken.readFraction_of_ne_point hpoint]
    rfl

/-- A sign is passed over, if there is one. -/
theorem runFrom_accept_sign (hs : s <:+ input.toList) : ∃ signed,
    (Cursor.accept input isSign).runFrom (place input s) =
      some (.ok signed, place input (Decimal.splitSign s).2) := by
  unfold Decimal.splitSign
  split
  · exact ⟨true, runFrom_accept rfl hs⟩
  · exact ⟨true, runFrom_accept rfl hs⟩
  · -- the first character, if there is one, is neither sign
    rename_i hminus hplus
    refine ⟨false, runFrom_accept_of_stopsAt ?_ hs⟩
    intro c hc
    obtain ⟨u, rfl⟩ := List.head?_eq_some_iff.mp hc
    cases hsign : isSign c with
    | false => rfl
    | true =>
      simp only [isSign, Bool.or_eq_true, beq_iff_eq] at hsign
      rcases hsign with rfl | rfl
      · exact absurd rfl (hplus u)
      · exact absurd rfl (hminus u)

/-- Where the digits of an exponent are missing, the cursor goes back to its letter. -/
theorem runFrom_exponent (hs : s <:+ input.toList) :
    (Cursor.exponent input).runFrom (place input s) =
      some (.ok (), place input (readExponent s).2) := by
  rw [Cursor.exponent, runFrom_after (runFrom_position _)]
  by_cases hletter : ∃ c u, s = c :: u ∧ (c = 'e' ∨ c = 'E')
  · obtain ⟨c, u, rfl, hc⟩ := hletter
    have hu := (List.suffix_cons c u).trans hs
    have hkind : (c == 'e' || c == 'E') = true := by
      rwa [Bool.or_eq_true, beq_iff_eq, beq_iff_eq]
    obtain ⟨sign, -, -, hsplit⟩ := NumberToken.splitSign_split u
    obtain ⟨signed, hsign⟩ := runFrom_accept_sign hu
    have hunsigned : (Decimal.splitSign u).2 <:+ u := ⟨sign, hsplit⟩
    have hdigits := runFrom_skip Char.isDigit (hunsigned.trans hu)
    rw [runFrom_after (runFrom_accept hkind hs), if_pos rfl, runFrom_after hsign,
      runFrom_after hdigits]
    -- with no digits behind the letter it belongs to what follows
    by_cases hnone : (Decimal.splitSign u).2.takeWhile Char.isDigit = []
    · rw [if_pos (List.length_eq_zero_iff.mpr hnone)]
      simp only [readExponent, Decimal.readExponent?, if_pos hc, if_pos hnone]
      rfl
    · rw [if_neg fun h => hnone (List.length_eq_zero_iff.mp h)]
      simp only [readExponent, Decimal.readExponent?, if_pos hc, if_neg hnone]
      rfl
  · have hother : ∀ c u, s = c :: u → ¬ (c = 'e' ∨ c = 'E') := fun c u h hc =>
      hletter ⟨c, u, h, hc⟩
    have hstop : StopsAt (fun c => c == 'e' || c == 'E') s := by
      intro c hc
      obtain ⟨u, hu⟩ := List.head?_eq_some_iff.mp hc
      have hne := hother c u hu
      rw [not_or] at hne
      rw [Bool.or_eq_false_iff]
      exact ⟨beq_eq_false_iff_ne.mpr hne.1, beq_eq_false_iff_ne.mpr hne.2⟩
    have hread : readExponent s = (0, s) := by
      cases s with
      | nil => rfl
      | cons c u => rw [readExponent, Decimal.readExponent?, if_neg (hother c u rfl)]; rfl
    rw [runFrom_after (runFrom_accept_of_stopsAt hstop hs), if_neg Bool.false_ne_true, hread]
    rfl

end Moves

end FactorStudy.Grammar
