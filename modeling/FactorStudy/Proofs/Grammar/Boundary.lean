import FactorStudy.Proofs.Grammar.Counted
import FactorStudy.Proofs.Grammar.Cursor

/-!
# No cut inside a character

The readers with a cursor always have a result, and it is that of the readers without. `Tracks` says
so of one computation: at the place where a text begins it does what is done with that text, and
ends at the place of what that leaves or fails at the place of its fault. Every computation that
tracks another one can be followed by the next (`Tracks.bind`), so there is one lemma for each level
of the grammar. The induction is at signed terms alone (`signed_readsAlong`), on the nesting; chains
and arguments have one of their own, on the steps that their loops are given.

A fault of the text is therefore where the cursor is when it is noticed, and that is between two
characters (`parse_points`).
-/

namespace FactorStudy.Grammar

open Text (isBlank dropBlank byteLength)
open Decimal (readFraction readExponent readNumeral?)
open FactorStudy.Expr (maxDepth parse)
open Expr.Parser

/-! ## Readers and cursors -/

/-- The error that a fault is in the whole text. -/
def errorAt (input : String) (f : Fault) : ParseError := ⟨f.cause, place input f.unread⟩

/-- What comes of `y` for the text `s` comes of `x` at the place where `s` begins. A `value` ends
at the place where the `rest` begins, and a fault is at the place of what was unread. -/
def Tracks {α β : Type} (input : String) (x : Seeking α) (s : List Char) (y : Except Fault β)
    (value : β → α) (rest : β → List Char) : Prop :=
  Outcome y
    (fun b => rest b <:+ s ∧
      x.runFrom (place input s) = some (.ok (value b), place input (rest b)))
    fun f => ∃ position, x.runFrom (place input s) = some (.error (errorAt input f), position)

section Tracks

variable {α β γ δ : Type} {input : String} {s t : List Char} {x : Seeking α}
  {value : β → α} {rest : β → List Char}

theorem Tracks.return {a : α} {b : β} (hvalue : value b = a) (hrest : rest b = s) :
    Tracks input (pure a) s (.ok b) value rest :=
  ⟨hrest ▸ List.suffix_rfl, hvalue ▸ hrest ▸ rfl⟩

theorem Tracks.throw {f : Fault} {err : ParseError} (h : err = errorAt input f) :
    Tracks input (throw err) s (.error f) value rest :=
  h ▸ ⟨_, rfl⟩

/-- A move comes first, to the place of an end of the text. -/
theorem Tracks.after {f : α → Seeking γ} {a : α} {y : Except Fault β} {value : β → γ}
    (h : x.runFrom (place input s) = some (.ok a, place input t)) (hts : t <:+ s)
    (hf : Tracks input (f a) t y value rest) : Tracks input (x >>= f) s y value rest := by
  unfold Tracks
  rw [runFrom_after h]
  exact hf.mono (fun b hb => ⟨hb.1.trans hts, hb.2⟩) fun _ hf => hf

/-- A look at the text comes first, without a move. -/
theorem Tracks.stay {f : α → Seeking γ} {a : α} {y : Except Fault β} {value : β → γ}
    (h : x.runFrom (place input s) = some (.ok a, place input s))
    (hf : Tracks input (f a) s y value rest) : Tracks input (x >>= f) s y value rest :=
  Tracks.after h List.suffix_rfl hf

/-- One after the other. -/
theorem Tracks.bind {y : Except Fault β} {f : α → Seeking γ} {g : β → Except Fault δ}
    {value' : δ → γ} {rest' : δ → List Char} (hx : Tracks input x s y value rest)
    (hf : ∀ b, rest b <:+ s → Tracks input (f (value b)) (rest b) (g b) value' rest') :
    Tracks input (x >>= f) s (y.bind g) value' rest' := by
  cases y with
  | ok b => exact Tracks.after hx.2 hx.1 (hf b hx.1)
  | error fault =>
    obtain ⟨position, h⟩ := hx
    exact ⟨position, runFrom_failed h⟩

/-- What was expected is not there. -/
theorem Tracks.unexpected (what : String) (hs : s <:+ input.toList) :
    Tracks input (Cursor.unexpected input what) s (.error ⟨.expected what s.head?, s⟩) value
      rest :=
  Tracks.stay (runFrom_peek hs)
    (Tracks.stay (runFrom_position _) (Tracks.throw rfl))

/-- What does not read, with its faults placed in the text. -/
theorem Tracks.still (y : Except Fault β) {z : Except ParseError β}
    (h : z = y.mapError (errorAt input)) :
    Tracks input (Cursor.still z) s y (fun b => b) fun _ => s := by
  subst h
  cases y with
  | ok b => exact ⟨List.suffix_rfl, rfl⟩
  | error fault => exact ⟨_, rfl⟩

end Tracks

/-- A tree and its height. -/
abbrev tree (x : Expr × Nat × List Char) : Expr × Nat := (x.1, x.2.1)

/-- The text behind a tree. -/
abbrev behind (x : Expr × Nat × List Char) : List Char := x.2.2

/-- What makes a node of what was read before. -/
theorem Tracks.node {input : String} {s : List Char} (y : Except Fault (Expr × Nat))
    {z : Except ParseError (Expr × Nat)} (h : z = y.mapError (errorAt input)) :
    Tracks input (Cursor.still z) s (y.bind fun x => .ok (x.1, x.2, s)) tree behind := by
  subst h
  cases y with
  | ok x => exact ⟨List.suffix_rfl, rfl⟩
  | error fault => exact ⟨_, rfl⟩

theorem deepen_place (input : String) (child : Nat) (u : List Char) :
    Cursor.deepen child (place input u) = (grow child u).mapError (errorAt input) := by
  unfold Cursor.deepen grow
  split <;> rfl

theorem negate_place (input : String) (e : Expr) (height : Nat) (u : List Char) :
    Cursor.negate e height (place input u) = (negate e height u).mapError (errorAt input) := by
  unfold Cursor.negate negate
  rw [deepen_place]
  cases e with
  | literal v => rfl
  | _ => cases grow height u <;> rfl

/-- An argument with its place in the text. -/
def placed (input : String) (a : Argument) : Cursor.Argument :=
  ⟨a.expr, a.height, place input a.start⟩

theorem finishCall_place (input : String) (f : Builtin) (args : List Argument) (u : List Char) :
    Cursor.finishCall f (args.map (placed input)) (place input u) =
      (finishCall f args u).mapError (errorAt input) := by
  have hheights : (args.map (placed input)).map (·.height) = args.map (·.height) :=
    List.map_map
  have hexprs : (args.map (placed input)).map (·.expr) = args.map (·.expr) := List.map_map
  -- the number of arguments, the window and the height do not depend on how places are kept
  unfold Cursor.finishCall finishCall
  rw [List.length_map, List.getLast?_map, hheights, hexprs, deepen_place]
  split
  · rfl
  · generalize grow ((args.map (·.height)).foldl max 0) u = node
    cases f.hasWindow with
    | false => cases node <;> rfl
    | true =>
      cases args.getLast? with
      | none => cases node <;> rfl
      | some last =>
        have hexpr : (placed input last).expr = last.expr := rfl
        simp only [if_true, Option.map_some, hexpr]
        cases isWindow last.expr with
        | true => cases node <;> rfl
        | false => rfl

/-! ## Numbers -/

/-- Neither a digit nor a point has a case. -/
theorem toLower_eq_self {c : Char} (h : c.isDigit = true ∨ c = '.') : c.toLower = c := by
  unfold Char.toLower
  refine dif_neg fun hupper => ?_
  rcases h with h | rfl
  · simp only [Char.isDigit, Bool.and_eq_true, decide_eq_true_eq] at h
    exact absurd (UInt32.le_trans hupper.1 h.2) (by decide)
  · exact absurd hupper (by decide)

/-- The text of a number is read as its value. It has no sign, and it is none of the words. -/
theorem NumberToken.readFloat_text (t : NumberToken) :
    Decimal.readFloat t.text = .ok t.numeral.toFloat := by
  obtain ⟨c, s, htext, hc⟩ := t.exists_cons
  have hread : readNumeral? t.text = some (t.numeral, []) := by
    have h := t.readNumeral?_text (r := []) fun c hc => by cases hc
    rwa [List.append_nil] at h
  have hsign : isSign c = false := by
    rcases hc with hc | rfl
    · exact isSign_eq_false_of_isDigit hc
    · rfl
  -- the words begin with a letter, the token with a digit or the point
  have hword : ∀ word : String, word.toList.head? ≠ some c →
      String.ofList ((c :: s).map Char.toLower) ≠ word := by
    rintro _ hne rfl
    rw [String.toList_ofList, List.map_cons, toLower_eq_self hc] at hne
    exact hne rfl
  have hletter : ∀ d : Char, d.isDigit = false → d ≠ '.' → some d ≠ some c := by
    rintro d hdigit hpoint ⟨⟩
    exact hc.elim (fun h => by rw [hdigit] at h; cases h) hpoint
  have hi := hletter 'i' rfl (by decide)
  have hn := hletter 'n' rfl (by decide)
  rw [htext] at hread ⊢
  have hinfinite := not_or.mpr ⟨hword "inf" hi, hword "infinity" hi⟩
  simp only [Decimal.readFloat, if_neg (List.cons_ne_nil c s),
    splitSign_of_stopsAt (stopsAt_cons hsign), if_neg hinfinite, if_neg (hword "nan" hn), hread]
  rfl

/-! ## Levels -/

/-- At the places of all ends of the text, a reader with a cursor reads what is read from them. -/
def ReadsAlong (input : String) (cursor : Cursor.Reader) (read : List Char → Result) : Prop :=
  ∀ s, s <:+ input.toList → Tracks input cursor s (read s) tree behind

section Levels

variable {input : String}

/-- Blanks come first. -/
theorem Tracks.skipBlanks {α β : Type} {x : Seeking α} {s : List Char} {y : Except Fault β}
    {value : β → α} {rest : β → List Char} (hs : s <:+ input.toList)
    (h : Tracks input x (dropBlank s) y value rest) :
    Tracks input (do let _ ← Cursor.skip input isBlank; x) s y value rest :=
  Tracks.after (runFrom_skip isBlank hs) (Text.dropBlank_suffix s) h

section Chain

variable {operator : Operator} {cursor : Cursor.Reader} {operand : Reader}

/-- The operators of a level are one character long. -/
def OneCharacter (operator : Operator) : Prop :=
  ∀ {s op t}, operator s = some (op, t) → ∃ c, s = c :: t.1

theorem sumOperator_oneCharacter : OneCharacter sumOperator := by
  intro s op t h
  unfold sumOperator at h
  split at h
  · cases h; exact ⟨'+', rfl⟩
  · cases h; exact ⟨'-', rfl⟩
  · cases h

theorem productOperator_oneCharacter : OneCharacter productOperator := by
  intro s op t h
  unfold productOperator at h
  split at h
  · cases h
  · cases h; exact ⟨'*', rfl⟩
  · cases h; exact ⟨'/', rfl⟩
  · cases h

/-- The links of a chain; the induction is on how many there may be, and a text has no more of them
than characters. -/
theorem tracks_links (hop : OneCharacter operator)
    (h : ReadsAlong input cursor fun s => view (operand s)) (fuel : Nat) :
    ∀ {s : List Char} (left : Expr) (height : Nat), s <:+ input.toList → s.length < fuel →
      Tracks input (Cursor.links input operator cursor fuel left height) s
        (chainView operator operand left height s) tree behind := by
  induction fuel with
  | zero =>
    intro s left height hs hlt
    exact absurd hlt (Nat.not_lt_zero _)
  | succ fuel ih =>
    intro s left height hs hlt
    have hblank := (Text.dropBlank_suffix s).trans hs
    rw [Cursor.links]
    refine Tracks.skipBlanks hs (Tracks.stay (runFrom_remaining hblank) ?_)
    cases hopr : operator (dropBlank s) with
    | none =>
      rw [chainView_none hopr]
      exact Tracks.return rfl rfl
    | some found =>
      obtain ⟨op, t⟩ := found
      obtain ⟨c, hc⟩ := hop hopr
      have hadvance := runFrom_advance (hc ▸ hblank : c :: t.1 <:+ input.toList)
      rw [← hc] at hadvance
      -- the operator is one character, which the cursor moves over on its own
      have ht : t.1 <:+ dropBlank s := ⟨[c], hc.symm⟩
      rw [chainView_some hopr]
      refine Tracks.stay (runFrom_position _) (Tracks.after hadvance ht ?_)
      refine Tracks.bind (h t.1 (ht.trans hblank)) fun right hright => ?_
      have hrest := hright.trans ht
      refine Tracks.bind (Tracks.still _ (deepen_place input _ _)) fun height' _ => ?_
      refine ih _ _ (hrest.trans hblank) ?_
      have h₁ := hright.length_le
      have h₂ := t.2
      have h₃ := Text.length_dropBlank_le s
      omega

theorem chain_readsAlong (hop : OneCharacter operator)
    (h : ReadsAlong input cursor fun s => view (operand s)) :
    ReadsAlong input (Cursor.chain input operator cursor)
      fun s => view (chain operator operand s) := by
  intro s hs
  simp only [view_chain]
  refine Tracks.bind (h s hs) fun first hfirst => ?_
  have hrest := hfirst.trans hs
  exact tracks_links hop h _ _ _ hrest (length_lt_of_suffix_input hrest)

end Chain

variable {cursor : Cursor.Reader} {read : Reader}

theorem sum_readsAlong (h : ReadsAlong input cursor fun s => view (read s)) :
    ReadsAlong input (Cursor.sum input cursor) fun s => view (Expr.Parser.sum read s) :=
  chain_readsAlong sumOperator_oneCharacter (chain_readsAlong productOperator_oneCharacter h)

theorem tracks_expectChar (c : Char) {s : List Char} (hs : s <:+ input.toList) :
    Tracks input (Cursor.expectChar input c) s (expectView c s) (fun _ => ()) fun r => r := by
  have hblank := (Text.dropBlank_suffix s).trans hs
  rw [Cursor.expectChar, expectView]
  refine Tracks.skipBlanks hs ?_
  revert hblank
  -- the end of the text, the character that is expected, or another one
  cases dropBlank s with
  | nil =>
    intro hblank
    have hstop : StopsAt (· == c) [] := fun c hc => by cases hc
    exact Tracks.stay (runFrom_accept_of_stopsAt hstop hblank)
      (Tracks.unexpected _ hblank)
  | cons d r =>
    intro hblank
    by_cases hd : d = c
    · simp only [if_pos hd]
      refine Tracks.after (runFrom_accept (beq_iff_eq.mpr hd) hblank) (List.suffix_cons d r) ?_
      exact Tracks.return rfl rfl
    · simp only [if_neg hd]
      have hstop : StopsAt (· == c) (d :: r) := stopsAt_cons (beq_eq_false_iff_ne.mpr hd)
      exact Tracks.stay (runFrom_accept_of_stopsAt hstop hblank)
        (Tracks.unexpected _ hblank)

theorem parenthesized_readsAlong (h : ReadsAlong input cursor fun s => view (read s)) :
    ReadsAlong input (Cursor.parenthesized input cursor)
      fun s => view (parenthesized read s) := by
  intro s hs
  simp only [view_parenthesized]
  refine Tracks.bind (sum_readsAlong h s hs) fun inner hinner => ?_
  refine Tracks.bind (tracks_expectChar ')' (hinner.trans hs)) fun r _ => ?_
  exact Tracks.return rfl rfl

/-- The digits, the point and the exponent are passed over one by one, and what is cut out behind
them is the number. -/
theorem number_readsAlong : ReadsAlong input (Cursor.number input) fun s => view (number s) := by
  intro s hs
  have hwhole : s.dropWhile Char.isDigit <:+ s := List.dropWhile_suffix Char.isDigit
  have hfraction := NumberToken.suffix_readFraction (s.dropWhile Char.isDigit)
  have hexponent := NumberToken.suffix_readExponent (readFraction (s.dropWhile Char.isDigit)).2
  have hdigits := hwhole.trans hs
  simp only [view_number, Cursor.number]
  refine Tracks.stay (runFrom_position _) ?_
  refine Tracks.after (runFrom_skip Char.isDigit hs) hwhole ?_
  refine Tracks.after (runFrom_fraction hdigits) hfraction ?_
  by_cases hnone : s.takeWhile Char.isDigit = [] ∧ (readFraction (s.dropWhile Char.isDigit)).1 = []
  · have hread : readNumeral? s = none := by simp only [readNumeral?, if_pos hnone]
    rw [hread, if_pos (by rw [hnone.1, hnone.2]; rfl)]
    exact Tracks.throw rfl
  · obtain ⟨n, hread⟩ : ∃ n, readNumeral? s =
        some (n, (readExponent (readFraction (s.dropWhile Char.isDigit)).2).2) := by
      simp only [readNumeral?, if_neg hnone]
      exact ⟨_, rfl⟩
    have hsome : ¬ (s.takeWhile Char.isDigit).length +
        (readFraction (s.dropWhile Char.isDigit)).1.length = 0 := by
      rwa [Nat.add_eq_zero_iff, List.length_eq_zero_iff, List.length_eq_zero_iff]
    rw [hread, if_neg hsome]
    refine Tracks.after (runFrom_exponent (hfraction.trans hdigits)) hexponent ?_
    refine Tracks.stay (runFrom_position _) ?_
    -- what is between the two positions is the number that was read
    obtain ⟨t, htext, rfl⟩ := NumberToken.exists_of_readNumeral? hread
    have hslice := runFrom_slice (htext ▸ hs)
      (place input (readExponent (readFraction (s.dropWhile Char.isDigit)).2).2)
    rw [htext] at hslice
    refine Tracks.stay hslice ?_
    rw [t.readFloat_text]
    exact Tracks.return rfl rfl

/-- The arguments of a call; the induction is as for the links of a chain. -/
theorem tracks_arguments (h : ReadsAlong input cursor fun s => view (read s)) (fuel : Nat) :
    ∀ {s : List Char}, s <:+ input.toList → s.length < fuel →
      Tracks input (Cursor.arguments input cursor fuel) s (argumentsView read s)
        (fun x => x.1.map (placed input)) fun x => x.2 := by
  induction fuel with
  | zero =>
    intro s hs hlt
    exact absurd hlt (Nat.not_lt_zero _)
  | succ fuel ih =>
    intro s hs hlt
    have hblank := (Text.dropBlank_suffix s).trans hs
    rw [Cursor.arguments, argumentsView_eq]
    refine Tracks.skipBlanks hs (Tracks.stay (runFrom_position _) ?_)
    refine Tracks.bind (h _ hblank) fun arg harg => ?_
    have hrest := harg.trans hblank
    have hshort : (behind arg).length ≤ s.length :=
      Nat.le_trans harg.length_le (Text.length_dropBlank_le s)
    have hnext := (Text.dropBlank_suffix (behind arg)).trans hrest
    have hless := Text.length_dropBlank_le (behind arg)
    refine Tracks.skipBlanks hrest ?_
    -- the cursor tries a comma first and then a parenthesis; a match looks at both at once
    by_cases hcomma : ∃ more, dropBlank (behind arg) = ',' :: more
    · obtain ⟨more, hmore⟩ := hcomma
      rw [hmore] at hnext hless ⊢
      rw [List.length_cons] at hless
      have hbehind := (List.suffix_cons ',' more).trans hnext
      refine Tracks.after (runFrom_accept rfl hnext) (List.suffix_cons ',' more) ?_
      refine Tracks.bind (ih hbehind (by omega)) fun others _ => ?_
      exact Tracks.return rfl rfl
    · rw [not_exists] at hcomma
      refine Tracks.stay (runFrom_accept_of_stopsAt (stopsAt_of_ne hcomma) hnext) ?_
      by_cases hclose : ∃ r, dropBlank (behind arg) = ')' :: r
      · obtain ⟨r, hr⟩ := hclose
        rw [hr] at hnext ⊢
        refine Tracks.after (runFrom_accept rfl hnext) (List.suffix_cons ')' r) ?_
        exact Tracks.return rfl rfl
      · rw [not_exists] at hclose
        refine Tracks.stay (runFrom_accept_of_stopsAt (stopsAt_of_ne hclose) hnext) ?_
        rw [if_neg Bool.false_ne_true]
        split
        · exact absurd ‹_› (hcomma _)
        · exact absurd ‹_› (hclose _)
        · exact Tracks.unexpected _ hnext

theorem tracks_argumentList (h : ReadsAlong input cursor fun s => view (read s)) {s : List Char}
    (hs : s <:+ input.toList) :
    Tracks input (Cursor.argumentList input cursor) s (argumentListView read s)
      (fun x => x.1.map (placed input)) fun x => x.2 := by
  have hblank := (Text.dropBlank_suffix s).trans hs
  rw [Cursor.argumentList, argumentListView_eq]
  refine Tracks.skipBlanks hs ?_
  by_cases hclose : ∃ r, dropBlank s = ')' :: r
  · obtain ⟨r, hr⟩ := hclose
    rw [hr] at hblank ⊢
    refine Tracks.after (runFrom_accept rfl hblank) (List.suffix_cons ')' r) ?_
    exact Tracks.return rfl rfl
  · rw [not_exists] at hclose
    refine Tracks.stay (runFrom_accept_of_stopsAt (stopsAt_of_ne hclose) hblank) ?_
    -- the arguments are read from behind the blanks, which makes no difference
    have hview : argumentsView read (dropBlank s) = argumentsView read s := by
      rw [argumentsView_eq, argumentsView_eq, dropBlank_dropBlank]
    rw [if_neg Bool.false_ne_true]
    split
    · exact absurd ‹_› (hclose _)
    · rw [← hview]
      exact tracks_arguments h _ hblank (length_lt_of_suffix_input hblank)

theorem tracks_call (h : ReadsAlong input cursor fun s => view (read s)) (f : Builtin)
    {start inside : List Char} (hinside : inside <:+ input.toList) :
    Tracks input (Cursor.call input cursor f (place input start)) inside
      (callView read f start inside) tree behind := by
  refine Tracks.bind (tracks_argumentList (sum_readsAlong h) hinside) fun args _ => ?_
  exact Tracks.node _ (finishCall_place input f args.1 start)

/-- A name begins with a character of names, so it is not empty. -/
theorem name_readsAlong (h : ReadsAlong input cursor fun s => view (read s)) {c : Char}
    {s : List Char} (hc : isNameChar c = true) (hs : c :: s <:+ input.toList) :
    Tracks input (Cursor.name input cursor) (c :: s) (view (name read (c :: s))) tree behind := by
  have hword : (c :: s).dropWhile isNameChar <:+ c :: s := List.dropWhile_suffix isNameChar
  have hshort : ((c :: s).dropWhile isNameChar).length < (c :: s).length := by
    rw [List.dropWhile_cons_of_pos hc]
    exact Nat.lt_succ_of_le (List.dropWhile_suffix isNameChar).length_le
  have hafter := hword.trans hs
  have hnext := (Text.dropBlank_suffix _).trans hafter
  rw [Cursor.name]
  -- the place in front of the name is kept for its errors
  refine Tracks.stay (runFrom_position _) ?_
  refine Tracks.after (runFrom_identifier hs) hword ?_
  refine Tracks.skipBlanks hafter ?_
  refine Tracks.stay (runFrom_peek hnext) ?_
  rw [view_name, if_pos hshort]
  by_cases hparen : ∃ inside, dropBlank ((c :: s).dropWhile isNameChar) = '(' :: inside
  · obtain ⟨inside, hinside⟩ := hparen
    rw [hinside] at hnext ⊢
    rw [if_pos List.head?_cons]
    cases Builtin.named? (String.ofList ((c :: s).takeWhile isNameChar)) with
    | none => exact Tracks.throw rfl
    | some f =>
      have hsuffix := List.suffix_cons '(' inside
      exact Tracks.after (runFrom_advance hnext) hsuffix (tracks_call h f (hsuffix.trans hnext))
  · rw [not_exists] at hparen
    have hother : (dropBlank ((c :: s).dropWhile isNameChar)).head? ≠ some '(' := by
      intro hhead
      obtain ⟨inside, hinside⟩ := List.head?_eq_some_iff.mp hhead
      exact hparen inside hinside
    rw [if_neg hother]
    generalize dropBlank ((c :: s).dropWhile isNameChar) = u at hparen ⊢
    cases Column.named? (String.ofList ((c :: s).takeWhile isNameChar)) with
    | none =>
      simp only
      exact Tracks.throw rfl
    | some column =>
      simp only
      exact Tracks.return rfl rfl

/-- At a primary the blanks are passed over once more. -/
theorem primary_readsAlong (h : ReadsAlong input cursor fun s => view (read s)) :
    ReadsAlong input (Cursor.primary input cursor)
      fun s => view (primary read (dropBlank s)) := by
  intro s hs
  have hblank := (Text.dropBlank_suffix s).trans hs
  simp only [Cursor.primary]
  refine Tracks.skipBlanks hs (Tracks.stay (runFrom_peek hblank) ?_)
  revert hblank
  generalize dropBlank s = u
  intro hblank
  -- what stands there decides which reader goes on
  cases u with
  | nil =>
    simp only [view_primary]
    exact Tracks.unexpected _ hblank
  | cons c u =>
    have hsuffix := List.suffix_cons c u
    by_cases hparen : c = '('
    · subst hparen
      simp only [view_primary]
      exact Tracks.after (runFrom_advance hblank) hsuffix
        (parenthesized_readsAlong h u (hsuffix.trans hblank))
    · simp only [view_primary_cons hparen, List.head?_cons, if_neg hparen]
      split
      · exact number_readsAlong _ hblank
      · split
        · rename_i hfirst
          exact name_readsAlong h (isNameChar_of_first hfirst) hblank
        · exact Tracks.unexpected _ hblank

theorem power_readsAlong (h : ReadsAlong input cursor fun s => view (read s)) :
    ReadsAlong input (Cursor.power input cursor) fun s => view (power read (dropBlank s)) := by
  intro s hs
  simp only [view_power]
  rw [Cursor.power]
  refine Tracks.bind (primary_readsAlong h s hs) fun base hbase => ?_
  have hrest := hbase.trans hs
  have hnext := (Text.dropBlank_suffix (behind base)).trans hrest
  refine Tracks.skipBlanks hrest (Tracks.stay (runFrom_remaining hnext) ?_)
  by_cases hstars : ∃ t, dropBlank (behind base) = '*' :: '*' :: t
  · obtain ⟨t, ht⟩ := hstars
    rw [ht] at hnext ⊢
    have hstar := (List.suffix_cons '*' ('*' :: t)).trans hnext
    have hsuffix : t <:+ '*' :: '*' :: t := List.suffix_append ['*', '*'] t
    -- both stars take up one byte
    have hset : (set (place input ('*' :: '*' :: t) + 2) : Seeking PUnit).runFrom
        (place input ('*' :: '*' :: t)) = some (.ok ⟨⟩, place input t) := by
      rw [← place_cons hstar, ← place_cons hnext]
      rfl
    refine Tracks.stay (runFrom_position _) (Tracks.after hset hsuffix ?_)
    refine Tracks.bind (h t (hsuffix.trans hnext)) fun exponent _ => ?_
    refine Tracks.bind (Tracks.still _ (deepen_place input _ _)) fun height _ => ?_
    exact Tracks.return rfl rfl
  · rw [not_exists] at hstars
    have hother : ¬ (['*', '*'].isPrefixOf (dropBlank (behind base)) = true) := by
      intro hpre
      obtain ⟨t, ht⟩ := List.isPrefixOf_iff_prefix.mp hpre
      exact hstars t ht.symm
    rw [if_neg hother]
    simp only
    exact Tracks.return rfl rfl

/-- At the first character of a signed term there are no blanks left. -/
theorem tracks_term (h : ReadsAlong input cursor fun s => view (read s)) {s : List Char}
    (hs : s <:+ input.toList) (hblank : dropBlank s = s) :
    Tracks input (Cursor.term input cursor) s (termView read s) tree behind := by
  rw [Cursor.term]
  refine Tracks.stay (runFrom_peek hs) ?_
  by_cases hminus : ∃ t, s = '-' :: t
  · obtain ⟨t, rfl⟩ := hminus
    have hsuffix := List.suffix_cons '-' t
    refine Tracks.stay (runFrom_position _) ?_
    refine Tracks.after (runFrom_advance hs) hsuffix ?_
    refine Tracks.bind (h t (hsuffix.trans hs)) fun operand _ => ?_
    exact Tracks.node _ (negate_place input _ _ _)
  · -- a power passes over blanks of its own, and there are none left
    have hother : s.head? ≠ some '-' := fun hhead => hminus (List.head?_eq_some_iff.mp hhead)
    have hpower : Tracks input (Cursor.power input cursor) s
        (view (power read (dropBlank s))) tree behind := power_readsAlong h s hs
    rw [hblank] at hpower
    rw [not_exists] at hminus
    rw [if_neg hother]
    unfold termView
    simp only
    exact hpower

end Levels

/-- Signed terms of any nesting; the induction is on the nesting. -/
theorem signed_readsAlong (input : String) (n : Nat) :
    ReadsAlong input (Cursor.signed input n) fun s => view (Expr.Parser.signed n s) := by
  induction n with
  | zero =>
    intro s hs
    simp only [view_signed_zero]
    refine Tracks.skipBlanks hs ?_
    exact Tracks.stay (runFrom_position _) (Tracks.throw rfl)
  | succ n ih =>
    intro s hs
    simp only [view_signed_eq_termView]
    refine Tracks.skipBlanks hs ?_
    exact tracks_term ih ((Text.dropBlank_suffix s).trans hs) (dropBlank_dropBlank s)

/-- The end of the text is behind its last byte, and nowhere before. -/
theorem place_lt_size_iff {input : String} {s : List Char} (hs : s <:+ input.toList) :
    place input s < input.utf8ByteSize ↔ s ≠ [] := by
  cases s with
  | nil =>
    refine iff_of_false ?_ fun h => h rfl
    rw [place, ← byteLength_toList]
    exact Nat.lt_irrefl _
  | cons c s =>
    refine iff_of_true ?_ (List.cons_ne_nil c s)
    have hnext := place_cons hs
    have hpos := c.utf8Size_pos
    have hle : place input s ≤ byteLength input.toList := Nat.sub_le _ _
    rw [← byteLength_toList]
    omega

theorem tracks_whole (input : String) :
    Tracks input (Cursor.whole input) input.toList (whole input.toList) (fun e => e)
      fun _ => [] := by
  rw [whole_eq_bind]
  refine Tracks.bind (sum_readsAlong (signed_readsAlong input maxDepth) _ List.suffix_rfl)
    fun p hp => ?_
  have hnext := (Text.dropBlank_suffix (behind p)).trans hp
  refine Tracks.skipBlanks hp (Tracks.stay (runFrom_position _) ?_)
  -- the input has to end here, and what is left over is quoted in the message
  by_cases hend : dropBlank (behind p) = []
  · rw [if_neg fun hlt => (place_lt_size_iff hnext).mp hlt hend, hend]
    exact Tracks.return rfl rfl
  · rw [if_pos ((place_lt_size_iff hnext).mpr hend)]
    simp only
    refine Tracks.stay (runFrom_remaining hnext) ?_
    exact Tracks.stay (runFrom_position _) (Tracks.throw rfl)

/-- **The cursor never stops.** Read with a position in bytes, every text comes to what it comes to
without: none is cut inside a character, and no loop goes on beyond its end. -/
theorem parse_cursor (input : String) : Cursor.parse input = some (parse input) := by
  have hstart : place input input.toList = 0 := Nat.sub_self _
  have hwhole := tracks_whole input
  unfold Tracks at hwhole
  rw [hstart] at hwhole
  unfold Cursor.parse parse
  -- on a failure the two readers agree, wherever the cursor has come to stand
  cases hread : whole input.toList with
  | ok e =>
    rw [hread] at hwhole
    rw [hwhole.2]
    rfl
  | error f =>
    rw [hread] at hwhole
    obtain ⟨position, hrun⟩ := hwhole
    rw [hrun]
    rfl

/-- **Where errors are.** Reading any text comes to an end, also with a cursor that has to cut the
text at its position each time it looks: no cut falls inside a character, and the result is the same
as without a cursor.

On the way every reader that is set to a place between two characters of the text comes to or turns
it down at another such place, and what is read is never empty. So the error, if there is one,
stands between two characters of the text, and is shown with a caret under the character it is
about. -/
theorem parse_points (input : String) :
    Cursor.parse input = some (parse input) ∧
    (∀ n read, InUse n read → KeepsBetween input read) ∧
    ((∃ e, parse input = .ok e) ∨
      ∃ err before after, parse input = .error err ∧ Points input before after err) := by
  refine ⟨parse_cursor input, fun n read hread => hread.keepsBetween input, ?_⟩
  have hwhole := whole_noticed input.toList
  unfold parse
  cases hread : whole input.toList with
  | ok e => exact Or.inl ⟨e, rfl⟩
  | error f =>
    rw [hread] at hwhole
    obtain ⟨before, after, h⟩ := points_of_noticed hwhole
    exact Or.inr ⟨_, before, after, rfl, h⟩

end FactorStudy.Grammar
