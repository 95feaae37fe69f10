import FactorStudy.Proofs.Grammar.Parse

/-!
# Where faults are placed

The parser counts bytes: a fault stands at the bytes of the text less those that were unread when it
was noticed. That is a place between two characters if what was unread is an end of the text. Every
reader keeps to such ends (`Forward`): what it leaves is an end of the text it is given, a shorter
one, and what was unread at its fault is an end of it too. This holds of the readers of signed terms
by induction on the nesting, and of every other level with them (`InUse`).

A fault also quotes the text: the character found instead of another, an unknown name, or all that
was left. `Quotes` says that this is what stands at the fault's place.
-/

namespace FactorStudy.Grammar

open Text (dropBlank byteLength)
open FactorStudy.Expr (maxDepth parse)
open Expr.Parser

/-! ## Readers move forward -/

/-- What a fault quotes is what stands at its place. -/
def Quotes : ParseCause → List Char → Prop
  | .expected _ found, s => found = s.head?
  | .unreadInput rest, s => rest.toList = s
  | .unknownFunction name, s | .unknownColumn name, s => name.toList = s.takeWhile isNameChar
  | _, _ => True

/-- A fault that was noticed somewhere in the text `s`. -/
structure NoticedIn (s : List Char) (f : Fault) : Prop where
  suffix : f.unread <:+ s
  quotes : Quotes f.cause f.unread

theorem NoticedIn.mono {s t : List Char} {f : Fault} (h : NoticedIn s f) (hst : s <:+ t) :
    NoticedIn t f := { h with suffix := h.suffix.trans hst }

/-- What is left unread is an end of the text, and a fault is noticed somewhere in the text. -/
def Forward (read : Reader) : Prop :=
  ∀ s, Outcome (view (read s)) (fun x => x.2.2 <:+ s) (NoticedIn s)

theorem Forward.of_suffix {read : Reader} (h : Forward read) {s t : List Char} (hst : s <:+ t) :
    Outcome (view (read s)) (fun x => x.2.2 <:+ t) (NoticedIn t) :=
  (h s).mono (fun _ hx => hx.trans hst) fun _ hf => hf.mono hst

theorem suffix_of_dropBlank {s t : List Char} {c : Char} (h : dropBlank s = c :: t) : t <:+ s :=
  (List.suffix_cons c t).trans (h ▸ Text.dropBlank_suffix s)

theorem outcome_grow_noticed (child : Nat) {s u : List Char} (hu : u <:+ s) :
    Outcome (grow child u) (fun _ => True) (NoticedIn s) := by
  unfold grow
  split
  · trivial
  · exact ⟨hu, trivial⟩

section Chain

variable {ops : List BinaryOp} {operator : Operator} {operand : Reader}

theorem OperatorSound.suffix (hop : OperatorSound ops operator) {s : List Char} {op : BinaryOp}
    {t : { r : List Char // r.length < s.length }} (h : operator s = some (op, t)) : t.1 <:+ s :=
  ⟨op.symbol.toList, (hop h).2⟩

/-- The links of a chain are read forward; the induction is on what is left of the text. -/
theorem chainView_forward (hop : OperatorSound ops operator) (hread : Forward operand)
    (n : Nat) : ∀ {s : List Char} (left : Expr) (height : Nat), s.length = n →
      Outcome (chainView operator operand left height s) (fun x => x.2.2 <:+ s) (NoticedIn s) := by
  induction n using Nat.strongRecOn with
  | ind n ih =>
    intro s left height hn
    cases hopr : operator (dropBlank s) with
    | none =>
      rw [chainView_none hopr]
      exact Text.dropBlank_suffix s
    | some found =>
      obtain ⟨op, t⟩ := found
      have ht : t.1 <:+ s := (hop.suffix hopr).trans (Text.dropBlank_suffix s)
      have hlt : t.1.length < n := by
        have h₁ := t.2
        have h₂ := Text.length_dropBlank_le s
        omega
      rw [chainView_some hopr]
      -- the operand ends further on, and the rest of the chain begins there
      refine Outcome.bind (hread t.1) (fun _ hf => hf.mono ht) ?_
      rintro ⟨right, height', r⟩ hr
      refine Outcome.bind (outcome_grow_noticed _ (Text.dropBlank_suffix s)) (fun _ h => h) ?_
      intro height'' _
      have hrest : r <:+ s := hr.trans ht
      exact (ih _ (Nat.lt_of_le_of_lt hr.length_le hlt) _ _ rfl).mono
        (fun _ hx => hx.trans hrest) fun _ hf => hf.mono hrest

theorem chain_forward (hop : OperatorSound ops operator) (hread : Forward operand) :
    Forward (chain operator operand) := by
  intro s
  rw [view_chain]
  refine Outcome.bind (hread s) (fun _ h => h) ?_
  intro x hx
  exact (chainView_forward hop hread _ x.1 x.2.1 rfl).mono (fun _ hy => hy.trans hx)
    fun _ hf => hf.mono hx

end Chain

section Levels

variable {read : Reader}

theorem sum_forward (hread : Forward read) : Forward (Expr.Parser.sum read) :=
  chain_forward sumOperator_sound (chain_forward productOperator_sound hread)

/-! ## Primaries -/

theorem number_forward : Forward number := by
  intro s
  rw [view_number]
  cases hn : Decimal.readNumeral? s with
  | none => exact ⟨List.suffix_rfl, trivial⟩
  | some x =>
    obtain ⟨t, htext, -⟩ := NumberToken.exists_of_readNumeral? hn
    exact ⟨t.text, htext⟩

theorem expectView_forward (c : Char) (s : List Char) :
    Outcome (expectView c s) (fun r => r <:+ s) (NoticedIn s) := by
  rw [expectView]
  split
  · rename_i d r hs
    split
    · exact suffix_of_dropBlank hs
    · exact ⟨hs ▸ Text.dropBlank_suffix s, rfl⟩
  · exact ⟨List.nil_suffix, rfl⟩

theorem parenthesized_forward (hread : Forward read) : Forward (parenthesized read) := by
  intro s
  rw [view_parenthesized]
  refine Outcome.bind (sum_forward hread s) (fun _ h => h) ?_
  intro x hx
  refine Outcome.bind (expectView_forward ')' x.2.2) (fun _ hf => hf.mono hx) ?_
  exact fun r hr => hr.trans hx

/-- The arguments of a call begin in the text they are read from, and leave an end of it. -/
structure ArgumentsIn (s : List Char) (x : List Argument × List Char) : Prop where
  start : ∀ a ∈ x.1, a.start <:+ s
  rest : x.2 <:+ s

/-- The arguments up to the closing parenthesis; the induction is on the text. -/
theorem argumentsView_forward {argument : Reader} (hread : Forward argument) (n : Nat) :
    ∀ {s : List Char}, s.length = n →
      Outcome (argumentsView argument s) (ArgumentsIn s) (NoticedIn s) := by
  induction n using Nat.strongRecOn with
  | ind n ih =>
    intro s hn
    have hs := Text.dropBlank_suffix s
    rw [argumentsView_eq]
    refine Outcome.bind (hread.of_suffix hs) (fun _ h => h) ?_
    rintro ⟨e, height, r⟩ hr
    have hr' := (Text.dropBlank_suffix r).trans hr
    simp only
    split
    · -- a comma: the arguments after it
      rename_i more hcomma
      have hmore : more <:+ s := (suffix_of_dropBlank hcomma).trans hr
      have hlt : more.length < n := by
        have h₁ := congrArg List.length hcomma
        have h₂ := hr'.length_le
        rw [List.length_cons] at h₁
        omega
      refine Outcome.bind (ih _ hlt rfl) (fun _ hf => hf.mono hmore) ?_
      intro others hothers
      refine ⟨List.forall_mem_cons.mpr ⟨hs, fun a ha => ?_⟩, hothers.rest.trans hmore⟩
      exact (hothers.start a ha).trans hmore
    · rename_i r' hclose
      exact ⟨List.forall_mem_singleton.mpr hs, (suffix_of_dropBlank hclose).trans hr⟩
    · exact ⟨hr', rfl⟩

theorem argumentListView_forward {argument : Reader} (hread : Forward argument) (s : List Char) :
    Outcome (argumentListView argument s) (ArgumentsIn s) (NoticedIn s) := by
  rw [argumentListView_eq]
  split
  · exact ⟨fun _ ha => (List.not_mem_nil ha).elim, suffix_of_dropBlank ‹_›⟩
  · exact argumentsView_forward hread _ rfl

/-- A call is turned down at its own place or at that of an argument. -/
theorem finishCall_forward (f : Builtin) {args : List Argument} {start s : List Char}
    (hargs : ∀ a ∈ args, a.start <:+ s) (hstart : start <:+ s) :
    Outcome (finishCall f args start) (fun _ => True) (NoticedIn s) := by
  unfold finishCall
  have hgrow := outcome_grow_noticed ((args.map (·.height)).foldl max 0) hstart
  have hnode : Outcome ((grow ((args.map (·.height)).foldl max 0) start).bind fun height =>
      .ok (Expr.call f (args.map (·.expr)), height)) (fun _ => True) (NoticedIn s) :=
    Outcome.bind hgrow (fun _ h => h) fun _ _ => trivial
  split
  · exact ⟨hstart, trivial⟩
  · cases f.hasWindow with
    | false => exact hnode
    | true =>
      cases hlast : args.getLast? with
      | none => exact hnode
      | some last =>
        -- a window is turned down where it stands, not at the name of the function
        have hlastIn := hargs last (List.mem_of_getLast? hlast)
        simp only [if_true]
        cases isWindow last.expr with
        | true => exact hnode
        | false => exact ⟨hlastIn, trivial⟩

theorem name_forward (hread : Forward read) : Forward (name read) := by
  intro s
  have hword : s.dropWhile isNameChar <:+ s := List.dropWhile_suffix isNameChar
  rw [view_name]
  split
  · split
    · rename_i inside hparen
      have hinside : inside <:+ s := (suffix_of_dropBlank hparen).trans hword
      -- an unknown function is reported at the start of its name
      cases Builtin.named? (String.ofList (s.takeWhile isNameChar)) with
      | none => exact ⟨List.suffix_rfl, String.toList_ofList⟩
      | some f =>
        refine Outcome.bind (argumentListView_forward (sum_forward hread) inside)
          (fun _ hf => hf.mono hinside) ?_
        intro args hargs
        refine Outcome.bind (finishCall_forward f
          (fun a ha => (hargs.start a ha).trans hinside) List.suffix_rfl) (fun _ h => h) ?_
        exact fun _ _ => hargs.rest.trans hinside
    · cases Column.named? (String.ofList (s.takeWhile isNameChar)) with
      | none => exact ⟨List.suffix_rfl, String.toList_ofList⟩
      | some c => exact (Text.dropBlank_suffix _).trans hword
  · exact ⟨List.suffix_rfl, rfl⟩

theorem primary_forward (hread : Forward read) : Forward (primary read) := by
  intro s
  rw [view_primary]
  split
  · exact (parenthesized_forward hread).of_suffix (List.suffix_cons '(' _)
  · split
    · exact number_forward _
    · split
      · exact name_forward hread _
      · exact ⟨List.suffix_rfl, rfl⟩
  · exact ⟨List.suffix_rfl, rfl⟩

/-! ## Powers and signed terms -/

theorem suffix_of_stars {s t : List Char} (h : dropBlank s = '*' :: '*' :: t) : t <:+ s :=
  (List.suffix_cons '*' t).trans (suffix_of_dropBlank h)

theorem power_forward (hread : Forward read) : Forward (power read) := by
  intro s
  rw [view_power]
  refine Outcome.bind (primary_forward hread s) (fun _ h => h) ?_
  rintro ⟨base, height, r⟩ hr
  have hrest := (Text.dropBlank_suffix r).trans hr
  simp only
  split
  · rename_i t hstars
    refine Outcome.bind (hread.of_suffix ((suffix_of_stars hstars).trans hr)) (fun _ h => h) ?_
    intro x hx
    exact Outcome.bind (outcome_grow_noticed _ (hstars ▸ hrest)) (fun _ h => h) fun _ _ => hx
  · exact hrest

theorem negate_forward (e : Expr) (height : Nat) {s u : List Char} (hu : u <:+ s) :
    Outcome (negate e height u) (fun _ => True) (NoticedIn s) := by
  unfold negate
  split
  · trivial
  · exact Outcome.bind (outcome_grow_noticed height hu) (fun _ h => h) fun _ _ => trivial

end Levels

/-- With however many signed terms allowed inside each other, they are read forward. -/
theorem signed_forward (n : Nat) : Forward (Expr.Parser.signed n) := by
  induction n with
  | zero =>
    intro s
    rw [view_signed_zero]
    exact ⟨Text.dropBlank_suffix s, trivial⟩
  | succ n ih =>
    intro s
    have hs := Text.dropBlank_suffix s
    rw [view_signed_succ]
    split
    · rename_i t hminus
      refine Outcome.bind (ih.of_suffix (suffix_of_dropBlank hminus)) (fun _ h => h) ?_
      intro x hx
      exact Outcome.bind (negate_forward _ _ (hminus ▸ hs)) (fun _ h => h) fun _ _ => hx
    · exact (power_forward ih).of_suffix hs

/-- The readers at work while `n` more signed terms may stand inside each other. -/
inductive InUse (n : Nat) : Reader → Prop
  | number : InUse n number
  | name : InUse n (name (signed n))
  | parenthesized : InUse n (parenthesized (signed n))
  | primary : InUse n (primary (signed n))
  | power : InUse n (power (signed n))
  | product : InUse n (chain productOperator (signed n))
  | sum : InUse n (Expr.Parser.sum (signed n))
  | signed : InUse n (signed n)

theorem InUse.forward {n : Nat} {read : Reader} (h : InUse n read) : Forward read := by
  have hsigned := signed_forward n
  cases h with
  | number => exact number_forward
  | name => exact name_forward hsigned
  | parenthesized => exact parenthesized_forward hsigned
  | primary => exact primary_forward hsigned
  | power => exact power_forward hsigned
  | product => exact chain_forward productOperator_sound hsigned
  | sum => exact sum_forward hsigned
  | signed => exact hsigned

/-- A text that is not an expression is turned down somewhere in it. -/
theorem whole_noticed (s : List Char) : Outcome (whole s) (fun _ => True) (NoticedIn s) := by
  rw [whole_eq_bind]
  refine Outcome.bind (sum_forward (signed_forward maxDepth) s) (fun _ h => h) ?_
  intro x hx
  split
  · trivial
  · exact ⟨(Text.dropBlank_suffix x.2.2).trans hx, String.toList_ofList⟩

/-! ## Places in bytes -/

theorem byteLength_append (s t : List Char) :
    byteLength (s ++ t) = byteLength s + byteLength t := by
  induction s with
  | nil => exact (Nat.zero_add _).symm
  | cons c s ih =>
    show c.utf8Size + byteLength (s ++ t) = c.utf8Size + byteLength s + byteLength t
    rw [ih, Nat.add_assoc]

theorem utf8ByteSize_ofList (s : List Char) : (String.ofList s).utf8ByteSize = byteLength s := by
  induction s with
  | nil => rfl
  | cons c s ih =>
    rw [← List.singleton_append, String.ofList_append, String.utf8ByteSize_append, ih,
      byteLength_append]
    congr 1
    exact String.utf8ByteSize_singleton

theorem byteLength_toList (s : String) : byteLength s.toList = s.utf8ByteSize := by
  rw [← utf8ByteSize_ofList, String.ofList_toList]

/-- A shorter end of a text takes up fewer bytes. -/
theorem byteLength_lt_of_suffix {s t : List Char} (h : s <:+ t) (hlt : s.length < t.length) :
    byteLength s < byteLength t := by
  obtain ⟨_ | ⟨c, a⟩, rfl⟩ := h
  · exact absurd hlt (Nat.lt_irrefl _)
  · have hc := c.utf8Size_pos
    rw [byteLength_append]
    show byteLength s < c.utf8Size + byteLength a + byteLength s
    omega

/-- The first characters of a text are found from the bytes that they take up. -/
theorem takeBytes?_append (a b : List Char) :
    ParseError.takeBytes? (byteLength a) (a ++ b) = some a := by
  induction a with
  | nil =>
    show ParseError.takeBytes? 0 b = some []
    rw [ParseError.takeBytes?]
  | cons c a ih =>
    have hpos : 0 < c.utf8Size + byteLength a := Nat.add_pos_left c.utf8Size_pos _
    obtain ⟨n, hn⟩ := Nat.exists_eq_succ_of_ne_zero (Nat.ne_of_gt hpos)
    show ParseError.takeBytes? (c.utf8Size + byteLength a) (c :: (a ++ b)) = some (c :: a)
    have hrest : n + 1 - c.utf8Size = byteLength a := by omega
    rw [hn, ParseError.takeBytes?, if_pos (by omega), hrest, ih]
    rfl

/-- The place in the text where `rest` begins, in bytes. -/
def place (input : String) (rest : List Char) : Nat :=
  byteLength input.toList - byteLength rest

theorem place_append (before : String) (rest : List Char) :
    place (before ++ String.ofList rest) rest = before.utf8ByteSize := by
  rw [place, String.toList_append, String.toList_ofList, byteLength_append, byteLength_toList,
    Nat.add_sub_cancel]

/-- Two strings make up the text where one of its ends begins. -/
theorem exists_append_of_suffix {input : String} {rest : List Char} (h : rest <:+ input.toList) :
    ∃ before : String, input = before ++ String.ofList rest := by
  obtain ⟨a, ha⟩ := h
  exact ⟨String.ofList a, by rw [← String.ofList_append, ha, String.ofList_toList]⟩

/-- The place of an end of the text falls between two characters. -/
theorem isValid_place {input : String} {rest : List Char} (h : rest <:+ input.toList) :
    (⟨place input rest⟩ : String.Pos.Raw).IsValid input := by
  obtain ⟨before, rfl⟩ := exists_append_of_suffix h
  rw [place_append]
  exact String.Pos.Raw.isValid_iff_exists_append.mpr ⟨before, _, rfl, rfl⟩

theorem place_lt_place {input : String} {s r : List Char} (hs : s <:+ input.toList) (hr : r <:+ s)
    (hlt : r.length < s.length) : place input s < place input r := by
  have h₁ := byteLength_lt_of_suffix hr hlt
  obtain ⟨a, ha⟩ := hs
  have h₂ := byteLength_append a s
  rw [ha] at h₂
  unfold place
  omega

theorem place_le_place {input : String} {s r : List Char} (hr : r <:+ s) :
    place input s ≤ place input r := by
  obtain ⟨a, rfl⟩ := hr
  have h := byteLength_append a r
  unfold place
  omega

/-- Set to read at a place of the text, a reader comes to a later place between two characters, or
it notices a fault there or further on, at a place between two characters. -/
def KeepsBetween (input : String) (read : Reader) : Prop :=
  ∀ s, s <:+ input.toList → Outcome (view (read s))
    (fun x => x.2.2 <:+ s ∧ place input s < place input x.2.2 ∧
      (⟨place input x.2.2⟩ : String.Pos.Raw).IsValid input)
    (fun f => f.unread <:+ s ∧ place input s ≤ place input f.unread ∧
      (⟨place input f.unread⟩ : String.Pos.Raw).IsValid input)

theorem InUse.keepsBetween {n : Nat} {read : Reader} (h : InUse n read) (input : String) :
    KeepsBetween input read := by
  intro s hs
  have hread := h.forward s
  cases hview : view (read s) with
  | ok x =>
    rw [hview] at hread
    have hrest : x.2.2 <:+ s := hread
    exact ⟨hrest, place_lt_place hs hrest (length_lt_of_view hview), isValid_place (hrest.trans hs)⟩
  | error f =>
    rw [hview] at hread
    have hunread : f.unread <:+ s := NoticedIn.suffix hread
    exact ⟨hunread, place_le_place hunread, isValid_place (hunread.trans hs)⟩

/-- The error stands between two parts of the text: it counts the bytes of the first and quotes the
second, and its caret is drawn under the second's first character. -/
structure Points (input before after : String) (err : ParseError) : Prop where
  input_eq : input = before ++ after
  position : err.position = before.utf8ByteSize
  le : err.position ≤ input.utf8ByteSize
  boundary : (⟨err.position⟩ : String.Pos.Raw).IsValid input
  quotes : Quotes err.cause after.toList
  /-- The bytes before the error are whole characters, so that its column is not taken in bytes. -/
  found : ParseError.takeBytes? err.position input.toList = some before.toList
  caret : err.inContext input =
    input ++ "\n" ++ String.ofList (List.replicate before.length ' ') ++ "^\n" ++ err.message

theorem points_of_noticed {input : String} {f : Fault} (h : NoticedIn input.toList f) :
    ∃ before after, Points input before after ⟨f.cause, place input f.unread⟩ := by
  obtain ⟨before, hsplit⟩ := exists_append_of_suffix h.suffix
  have hplace : place input f.unread = before.utf8ByteSize := by
    rw [hsplit]
    exact place_append before f.unread
  have hvalid := isValid_place h.suffix
  -- so that byte cuts the input after `before`, between two characters
  have hfound : ParseError.takeBytes? (place input f.unread) input.toList =
      some before.toList := by
    rw [hplace, ← byteLength_toList, hsplit, String.toList_append]
    exact takeBytes?_append _ _
  refine ⟨before, String.ofList f.unread, hsplit, hplace, hvalid.le_utf8ByteSize, hvalid, ?_,
    hfound, ?_⟩
  · rw [String.toList_ofList]
    exact h.quotes
  · rw [ParseError.inContext, ParseError.underlined]
    simp only [hfound, Option.map_some, Option.getD_some, String.length_toList]

end FactorStudy.Grammar
