import FactorStudy.Expr.Parser
import FactorStudy.Proofs.Outcome

/-!
# What the readers do

A reader returns the proof that it leaves a shorter text, so that chains of operators and arguments
end. For what it reads these proofs do not matter. `view` forgets them, and here is one equation
for each reader, by which all later arguments go; the readers themselves are not opened again.
-/

namespace FactorStudy.Grammar

open Text (dropBlank)
open FactorStudy.Expr Expr.Parser

/-- A tree with its height and the text behind it, or a fault. -/
abbrev Result := Except Fault (Expr × Nat × List Char)

/-- What is read, without the proof that the rest is shorter. -/
def view {s : List Char} (x : Except Fault (Parsed s)) : Result :=
  x.map fun p => (p.expr, p.height, p.rest)

theorem bind_ok {α β : Type} (a : α) (f : α → Except Fault β) :
    Except.bind (.ok a) f = f a := rfl

theorem view_ok {s : List Char} (p : Parsed s) : view (.ok p) = .ok (p.expr, p.height, p.rest) :=
  rfl

/-- A reader takes at least one character. -/
theorem length_lt_of_view {read : Reader} {s : List Char} {x : Expr × Nat × List Char}
    (h : view (read s) = .ok x) : x.2.2.length < s.length := by
  obtain ⟨p, -, hp⟩ := exists_of_bind_eq_ok h
  cases hp
  exact p.shorter

theorem view_skipping (read : Reader) (s : List Char) :
    view (skipping read s) = view (read (dropBlank s)) := by
  show view (Except.bind (read (dropBlank s)) _) = _
  cases read (dropBlank s) <;> rfl

/-! ## Chains -/

/-- The continuation of a chain after its left part. -/
def chainView (operator : Operator) (operand : Reader) (left : Expr) (height : Nat)
    (s : List Char) : Result :=
  (chainFrom operator operand left height s).map fun x => (x.1, x.2.1, x.2.2.1)

theorem view_chain (operator : Operator) (operand : Reader) (s : List Char) :
    view (chain operator operand s) =
      (view (operand s)).bind fun x => chainView operator operand x.1 x.2.1 x.2.2 := by
  show view (Except.bind (operand s) _) = _
  cases operand s with
  | error f => rfl
  | ok p =>
    show view (Except.bind (chainFrom operator operand p.expr p.height p.rest) _) =
      Except.map _ (chainFrom operator operand p.expr p.height p.rest)
    cases chainFrom operator operand p.expr p.height p.rest <;> rfl

theorem chainView_none {operator : Operator} {operand : Reader} {left : Expr} {height : Nat}
    {s : List Char} (h : operator (dropBlank s) = none) :
    chainView operator operand left height s = .ok (left, height, dropBlank s) := by
  rw [chainView, chainFrom]
  split
  · rfl
  · rename_i h'
    rw [h] at h'
    cases h'

theorem chainView_some {operator : Operator} {operand : Reader} {left : Expr} {height : Nat}
    {s : List Char} {op : BinaryOp} {t : { r : List Char // r.length < (dropBlank s).length }}
    (h : operator (dropBlank s) = some (op, t)) :
    chainView operator operand left height s =
      (view (operand t.1)).bind fun x =>
        (grow (max height x.2.1) (dropBlank s)).bind fun height' =>
          chainView operator operand (.binary op left x.1) height' x.2.2 := by
  rw [chainView, chainFrom]
  split
  · rename_i h'
    rw [h] at h'
    cases h'
  · rename_i op' afterOp hop h'
    rw [h] at h'
    cases h'
    show Except.map _ (Except.bind (operand afterOp) _) = _
    -- with the proofs of progress gone, both sides read the operand and go on alike
    cases operand afterOp with
    | error f => rfl
    | ok p =>
      show Except.map _ (Except.bind (grow (max height p.height) (dropBlank s)) _) =
        Except.bind (grow (max height p.height) (dropBlank s)) _
      cases grow (max height p.height) (dropBlank s) with
      | error f => rfl
      | ok height' =>
        show Except.map _ (Except.bind (chainFrom operator operand _ height' p.rest) _) =
          Except.map _ (chainFrom operator operand (.binary op left p.expr) height' p.rest)
        cases chainFrom operator operand (.binary op left p.expr) height' p.rest <;> rfl

/-! ## Primaries -/

theorem view_number (s : List Char) :
    view (number s) = match Decimal.readNumeral? s with
      | some (n, r) => .ok (.literal n.toFloat, 1, r)
      | none => .error ⟨.digitExpected, s⟩ := by
  rw [number]
  split
  · rename_i n r h
    simp only [h]
    rfl
  · rename_i h
    simp only [h]
    rfl

/-- Passing over blanks and the given character. -/
def expectView (c : Char) (s : List Char) : Except Fault (List Char) :=
  match dropBlank s with
  | d :: r =>
    if d = c then .ok r else .error ⟨.expected (String.ofList ['\'', c, '\'']) (some d), d :: r⟩
  | [] => .error ⟨.expected (String.ofList ['\'', c, '\'']) none, []⟩

theorem map_expectChar (c : Char) (s : List Char) :
    (expectChar c s).map Subtype.val = expectView c s := by
  rw [expectChar, expectView]
  split
  · rename_i d r h
    simp only [h]
    split <;> rfl
  · rename_i h
    simp only [h]
    rfl

theorem view_parenthesized (signed : Reader) (s : List Char) :
    view (parenthesized signed s) =
      (view (sum signed s)).bind fun x =>
        (expectView ')' x.2.2).bind fun r => .ok (x.1, x.2.1, r) := by
  show view (Except.bind (sum signed s) _) = _
  cases sum signed s with
  | error f => rfl
  | ok p =>
    show view (Except.bind (expectChar ')' p.rest) _) = Except.bind (expectView ')' p.rest) _
    rw [← map_expectChar]
    cases expectChar ')' p.rest <;> rfl

/-- The arguments of a call, and the text behind its closing parenthesis. -/
abbrev ArgumentsResult := Except Fault (List Argument × List Char)

def argumentsView (argument : Reader) (s : List Char) : ArgumentsResult :=
  (arguments argument s).map fun x => (x.1, x.2.1)

def argumentListView (argument : Reader) (s : List Char) : ArgumentsResult :=
  (argumentList argument s).map fun x => (x.1, x.2.1)

theorem argumentsView_eq (argument : Reader) (s : List Char) :
    argumentsView argument s =
      (view (argument (dropBlank s))).bind fun x =>
        match dropBlank x.2.2 with
        | ',' :: more =>
          (argumentsView argument more).bind fun others =>
            .ok (⟨x.1, x.2.1, dropBlank s⟩ :: others.1, others.2)
        | ')' :: r => .ok ([⟨x.1, x.2.1, dropBlank s⟩], r)
        | other => .error ⟨.expected "',' or ')'" other.head?, other⟩ := by
  rw [argumentsView, arguments]
  show Except.map _ (Except.bind (argument (dropBlank s)) _) = _
  cases argument (dropBlank s) with
  | error f => rfl
  | ok p =>
    rw [view_ok, bind_ok, bind_ok]
    split
    · rename_i more h
      simp only [h]
      show Except.map _ (Except.bind (arguments argument more) _) =
        Except.bind (Except.map _ (arguments argument more)) _
      cases arguments argument more <;> rfl
    · rename_i r h
      simp only [h]
      rfl
    · rename_i h₁ h₂
      split
      · exact (h₁ _ ‹_›).elim
      · exact (h₂ _ ‹_›).elim
      · rfl

theorem argumentListView_eq (argument : Reader) (s : List Char) :
    argumentListView argument s = match dropBlank s with
      | ')' :: r => .ok ([], r)
      | _ => argumentsView argument s := by
  rw [argumentListView, argumentList]
  split
  · rename_i r h
    simp only [h]
    rfl
  · rename_i h
    split
    · exact (h _ ‹_›).elim
    · rfl

theorem view_name (signed : Reader) (s : List Char) :
    view (name signed s) =
      if (s.dropWhile isNameChar).length < s.length then
        match dropBlank (s.dropWhile isNameChar) with
        | '(' :: inside =>
          match Builtin.named? (String.ofList (s.takeWhile isNameChar)) with
          | none => .error ⟨.unknownFunction (String.ofList (s.takeWhile isNameChar)), s⟩
          | some f =>
            (argumentListView (sum signed) inside).bind fun args =>
              (finishCall f args.1 s).bind fun x => .ok (x.1, x.2, args.2)
        | rest =>
          match Column.named? (String.ofList (s.takeWhile isNameChar)) with
          | some c => .ok (.column c, 1, rest)
          | none => .error ⟨.unknownColumn (String.ofList (s.takeWhile isNameChar)), s⟩
      else .error ⟨.expected "expression" s.head?, s⟩ := by
  rw [name]
  simp only
  split
  · split
    · rename_i inside h
      simp only [h]
      cases Builtin.named? (String.ofList (s.takeWhile isNameChar)) with
      | none => rfl
      | some f =>
        show view (Except.bind (argumentList (sum signed) inside) _) =
          Except.bind (Except.map _ (argumentList (sum signed) inside)) _
        cases argumentList (sum signed) inside with
        | error f => rfl
        | ok args =>
          show view (Except.bind (finishCall f args.1 s) _) = Except.bind (finishCall f args.1 s) _
          cases finishCall f args.1 s <;> rfl
    · -- without a parenthesis behind it the name is a column's
      rename_i h
      cases Column.named? (String.ofList (s.takeWhile isNameChar)) with
      | none =>
        simp only
        rfl
      | some c =>
        simp only
        rfl
  · rfl

theorem view_primary (signed : Reader) (s : List Char) :
    view (primary signed s) = match s with
      | '(' :: inside => view (parenthesized signed inside)
      | c :: rest =>
        if c.isDigit ∨ c = '.' then view (number (c :: rest))
        else if c.isAlpha ∨ c = '_' then view (name signed (c :: rest))
        else .error ⟨.expected "expression" (some c), c :: rest⟩
      | [] => .error ⟨.expected "expression" none, []⟩ := by
  unfold primary
  split
  · rename_i inside
    show view (Except.bind (parenthesized signed inside) _) = view (parenthesized signed inside)
    cases parenthesized signed inside <;> rfl
  · rename_i c rest hc
    by_cases hnumber : c.isDigit ∨ c = '.'
    · simp only [if_pos hnumber]
    · simp only [if_neg hnumber]
      split <;> rfl
  · rfl

theorem view_primary_cons {signed : Reader} {c : Char} (hc : c ≠ '(') (s : List Char) :
    view (primary signed (c :: s)) =
      if c.isDigit ∨ c = '.' then view (number (c :: s))
      else if c.isAlpha ∨ c = '_' then view (name signed (c :: s))
      else .error ⟨.expected "expression" (some c), c :: s⟩ := by
  rw [view_primary]
  split
  · exact absurd (List.cons.inj ‹_›).1 hc
  · rename_i heq
    cases heq
    rfl
  · cases ‹_›

/-! ## Powers and signed terms -/

theorem view_power (signed : Reader) (s : List Char) :
    view (power signed s) =
      (view (primary signed s)).bind fun base =>
        match dropBlank base.2.2 with
        | '*' :: '*' :: t =>
          (view (signed t)).bind fun exponent =>
            (grow (max base.2.1 exponent.2.1) ('*' :: '*' :: t)).bind fun height =>
              .ok (.binary .pow base.1 exponent.1, height, exponent.2.2)
        | rest => .ok (base.1, base.2.1, rest) := by
  show view (Except.bind (primary signed s) _) = _
  cases primary signed s with
  | error f => rfl
  | ok p =>
    rw [view_ok, bind_ok, bind_ok]
    split
    · rename_i t h
      simp only [h]
      show view (Except.bind (signed t) _) = _
      cases signed t with
      | error f => rfl
      | ok q =>
        show view (Except.bind (grow (max p.height q.height) ('*' :: '*' :: t)) _) =
          Except.bind (grow (max p.height q.height) ('*' :: '*' :: t)) _
        cases grow (max p.height q.height) ('*' :: '*' :: t) <;> rfl
    · rename_i h
      split
      · exact (h _ ‹_›).elim
      · rfl

theorem view_signed_zero (s : List Char) :
    view (signed 0 s) = .error ⟨.nestedTooDeeply, dropBlank s⟩ := view_skipping _ s

theorem view_signed_succ (n : Nat) (s : List Char) :
    view (signed (n + 1) s) = match dropBlank s with
      | '-' :: t =>
        (view (signed n t)).bind fun x =>
          (negate x.1 x.2.1 ('-' :: t)).bind fun y => .ok (y.1, y.2, x.2.2)
      | t => view (power (signed n) t) := by
  rw [signed, view_skipping]
  generalize dropBlank s = u
  split
  · rename_i t
    show view (Except.bind (signed n t) _) = Except.bind (view (signed n t)) _
    cases signed n t with
    | error f => rfl
    | ok p =>
      show view (Except.bind (negate p.expr p.height ('-' :: t)) _) =
        Except.bind (negate p.expr p.height ('-' :: t)) _
      cases negate p.expr p.height ('-' :: t) <;> rfl
  · -- no other text begins with a minus
    simp only

end FactorStudy.Grammar
