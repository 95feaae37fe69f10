import FactorStudy.Proofs.Json.Token

/-!
# Values in a text

`Written j t` says that the text `t` is the value `j`, without a reader: its tokens are those of the
writer, with any white space between them. Such a text is read as the value (`readWanted?_written`),
the induction being on the budget of the reader, which the length of the text bounds. Both layouts
of the writer are such texts when the numbers in the value can be written at all (`Exact`), so what
is read from either of them is the value (`read?_compact`, `read?_pretty`).
-/

namespace FactorStudy.Json

open Grammar (StopsAt stopsAt_cons isWordChar dropWhile_eq_self_of_stopsAt)

/-! ## White space -/

def isSpace (c : Char) : Bool := c = ' ' || c = '\t' || c = '\n' || c = '\r'

/-- White space between tokens. -/
def Space (g : List Char) : Prop := ∀ c ∈ g, isSpace c = true

theorem Space.nil : Space [] := fun _ h => (List.not_mem_nil h).elim

theorem dropSpace_gap {g : List Char} (hg : Space g) (s : List Char) :
    dropSpace (g ++ s) = dropSpace s :=
  List.dropWhile_append_of_pos hg

theorem dropSpace_cons {c : Char} (hc : isSpace c = false) (s : List Char) :
    dropSpace (c :: s) = c :: s :=
  dropWhile_eq_self_of_stopsAt (stopsAt_cons hc)

@[simp] theorem dropSpace_dropSpace (s : List Char) : dropSpace (dropSpace s) = dropSpace s :=
  dropWhile_eq_self_of_stopsAt (Grammar.stopsAt_dropWhile isSpace s)

theorem isWordChar_eq_false_of_isSpace {c : Char} (h : isSpace c = true) : isWordChar c = false := by
  simp only [isSpace, Bool.or_eq_true, decide_eq_true_eq] at h
  rcases h with ((rfl | rfl) | rfl) | rfl <;> decide

/-- White space ends a number, and so does the token behind it. -/
theorem stopsAt_gap {g : List Char} (hg : Space g) {c : Char} (hc : isWordChar c = false)
    (s : List Char) : StopsAt isWordChar (g ++ c :: s) := by
  cases g with
  | nil => exact stopsAt_cons hc
  | cons d g => exact stopsAt_cons (isWordChar_eq_false_of_isSpace (hg d List.mem_cons_self))

/-! ## Texts of values -/

mutual

/-- The text is the value. -/
inductive Written : Json → List Char → Prop where
  | null : Written .null "null".toList
  | bool (b : Bool) : Written (.bool b) (if b then "true".toList else "false".toList)
  | integer {n : Int} : isSmall n = true → Written (.integer n) (toString n).toList
  | double {x : Float} : x.isFinite = true → Written (.double x) (Decimal.compact x).toList
  | string (s : String) : Written (.string s) (quoted s).toList
  | emptyArray {g : List Char} : Space g → Written (.array []) ('[' :: (g ++ [']']))
  | array {items : List Json} {t : List Char} :
      WrittenItems items t → Written (.array items) ('[' :: t)
  | emptyObject {g : List Char} : Space g → Written (.object []) ('{' :: (g ++ ['}']))
  | object {members : List (String × Json)} {t : List Char} :
      WrittenMembers members t → Written (.object members) ('{' :: t)

/-- The text is the items of an array up to its closing bracket. -/
inductive WrittenItems : List Json → List Char → Prop where
  | last {j : Json} {g t g' : List Char} : Space g → Written j t → Space g' →
      WrittenItems [j] (g ++ (t ++ (g' ++ [']'])))
  | cons {j : Json} {js : List Json} {g t g' ts : List Char} : Space g → Written j t → Space g' →
      WrittenItems js ts → WrittenItems (j :: js) (g ++ (t ++ (g' ++ ',' :: ts)))

/-- The text is the members of an object up to its closing brace. -/
inductive WrittenMembers : List (String × Json) → List Char → Prop where
  | last {name : String} {j : Json} {g u t g' : List Char} :
      Space g → Space u → Written j t → Space g' →
      WrittenMembers [(name, j)] (g ++ ((quoted name).toList ++ ':' :: (u ++ (t ++ (g' ++ ['}'])))))
  | cons {name : String} {j : Json} {ms : List (String × Json)} {g u t g' ts : List Char} :
      Space g → Space u → Written j t → Space g' → WrittenMembers ms ts →
      WrittenMembers ((name, j) :: ms)
        (g ++ ((quoted name).toList ++ ':' :: (u ++ (t ++ (g' ++ ',' :: ts)))))

end

theorem toList_quoted (s : String) :
    (quoted s).toList = '"' :: (s.toList.flatMap escaped ++ ['"']) := String.toList_ofList

/-! ## Reading -/

/-- The reader keeps what the value says, all of it or, of an object, the members it has. -/
def Wanted.Covers (w : Wanted) : Json → Prop
  | .object ms => w.self = true ∧ ∀ m ∈ ms, w.member m.1 = .all
  | _ => w = .all

theorem Wanted.covers_all (j : Json) : Wanted.all.Covers j := by
  cases j with
  | object members => exact ⟨rfl, fun _ _ => rfl⟩
  | _ => rfl

/-- With that budget, values are read. -/
def ReadsValues (fuel : ℕ) : Prop :=
  ∀ {w : Wanted} {j : Json} {t : List Char} (r : List Char), w.Covers j → Written j t →
    StopsAt isWordChar r → t.length ≤ fuel → value? w fuel (t ++ r) = some (j, r)

def ReadsItems (fuel : ℕ) : Prop :=
  ∀ {items : List Json} {t : List Char} (r : List Char), WrittenItems items t →
    t.length ≤ fuel → items? .all fuel (t ++ r) = some (items, r)

def ReadsMembers (fuel : ℕ) : Prop :=
  ∀ {w : Wanted} {members : List (String × Json)} {t : List Char} (r : List Char),
    w.Covers (.object members) → WrittenMembers members t →
    t.length ≤ fuel → members? w fuel (t ++ r) = some (members, r)

/-- A number begins with a digit or a minus. -/
def BeginsNumber (s : List Char) : Prop := ∃ c t, s = c :: t ∧ (c.isDigit || c == '-') = true

theorem isSpace_eq_false_of_isDigit {c : Char} (h : c.isDigit = true) : isSpace c = false := by
  cases hspace : isSpace c with
  | false => rfl
  | true =>
    have hword := Grammar.isWordChar_of_isDigit h
    rw [isWordChar_eq_false_of_isSpace hspace] at hword
    cases hword

theorem beginsNumber_signed {minus : Bool} {s : List Char} (hne : s ≠ [])
    (hs : ∀ c ∈ s, c.isDigit = true) (r : List Char) :
    BeginsNumber ((if minus then '-' :: s else s) ++ r) := by
  cases minus with
  | true => exact ⟨'-', s ++ r, rfl, rfl⟩
  | false =>
    obtain ⟨c, t, rfl⟩ := List.exists_cons_of_ne_nil hne
    exact ⟨c, t ++ r, rfl, by rw [hs c List.mem_cons_self]; rfl⟩

theorem beginsNumber_integer (n : ℤ) (r : List Char) : BeginsNumber ((toString n).toList ++ r) := by
  rw [toList_toString]
  exact beginsNumber_signed Nat.toDigits_ne_nil (fun _ => Decimal.isDigit_of_mem_digitsOf) r

theorem beginsNumber_double {x : Float} (hx : x.isFinite = true) (r : List Char) :
    BeginsNumber ((Decimal.compact x).toList ++ r) := by
  obtain ⟨t, ht, -, htext, -⟩ := Decimal.exists_token_compact hx
  have htail : (if Decimal.isNegative x then '-' :: t.text else t.text) ++ r =
      (if Decimal.isNegative x then '-' :: t.whole else t.whole) ++
        (Grammar.NumberToken.fractionText t.fraction ++
          (Grammar.NumberToken.exponentText t.exponent ++ r)) := by
    rw [Grammar.NumberToken.text]
    split <;> simp
  rw [htext, htail]
  exact beginsNumber_signed ht.whole_ne t.whole_digit _

theorem value?_number {s : List Char} (hs : BeginsNumber s) (w : Wanted) (fuel : ℕ) :
    value? w (fuel + 1) s = number? s := by
  obtain ⟨c, t, rfl, hc⟩ := hs
  have hspace : isSpace c = false := by
    rcases Bool.or_eq_true_iff.mp hc with h | h
    · exact isSpace_eq_false_of_isDigit h
    · rw [eq_of_beq h]
      rfl
  rw [value?, dropSpace_cons hspace]
  split
  all_goals first
    | rfl
    | rename_i heq
      rw [(List.cons.inj heq).1] at hc
      exact absurd hc (by decide)

/-- White space in front of a value is passed over. -/
theorem value?_dropSpace (w : Wanted) (fuel : ℕ) (s : List Char) :
    value? w fuel (dropSpace s) = value? w fuel s := by
  cases fuel with
  | zero => rfl
  | succ fuel => rw [value?, value?, dropSpace_dropSpace]

theorem value?_gap {g : List Char} (hg : Space g) (w : Wanted) (fuel : ℕ) (s : List Char) :
    value? w fuel (g ++ s) = value? w fuel s := by
  rw [← value?_dropSpace, dropSpace_gap hg, value?_dropSpace]

theorem items?_dropSpace (w : Wanted) (fuel : ℕ) (s : List Char) :
    items? w fuel (dropSpace s) = items? w fuel s := by
  cases fuel with
  | zero => rfl
  | succ fuel => rw [items?, items?, value?_dropSpace]

theorem members?_dropSpace (w : Wanted) (fuel : ℕ) (s : List Char) :
    members? w fuel (dropSpace s) = members? w fuel s := by
  cases fuel with
  | zero => rfl
  | succ fuel => rw [members?, members?, dropSpace_dropSpace]

/-- No value begins with white space or with a closing bracket. -/
theorem Written.begins {j : Json} {t : List Char} (h : Written j t) :
    ∃ c s, t = c :: s ∧ isSpace c = false ∧ c ≠ ']' := by
  -- a number begins with a digit or the minus
  have hnumber : ∀ {s}, BeginsNumber (s ++ []) → ∃ c u, s = c :: u ∧ isSpace c = false ∧ c ≠ ']' := by
    rintro s ⟨c, u, hs, hc⟩
    rw [List.append_nil] at hs
    rcases Bool.or_eq_true_iff.mp hc with h | h
    · refine ⟨c, u, hs, isSpace_eq_false_of_isDigit h, ?_⟩
      rintro rfl
      exact absurd h (by decide)
    · rw [eq_of_beq h] at hs
      exact ⟨'-', u, hs, rfl, by decide⟩
  cases h with
  | null => exact ⟨'n', _, rfl, rfl, by decide⟩
  | bool b => cases b <;> exact ⟨_, _, rfl, rfl, by decide⟩
  | integer hn => exact hnumber (beginsNumber_integer _ [])
  | double hx => exact hnumber (beginsNumber_double hx [])
  | string s => exact ⟨'"', _, toList_quoted s, rfl, by decide⟩
  | emptyArray hg => exact ⟨'[', _, rfl, rfl, by decide⟩
  | array h => exact ⟨'[', _, rfl, rfl, by decide⟩
  | emptyObject hg => exact ⟨'{', _, rfl, rfl, by decide⟩
  | object h => exact ⟨'{', _, rfl, rfl, by decide⟩

theorem WrittenItems.ne_close {items : List Json} {t : List Char} (h : WrittenItems items t)
    (r u : List Char) : dropSpace (t ++ r) ≠ ']' :: u := by
  have hfirst : ∀ {j : Json} {g t : List Char} (s : List Char), Space g → Written j t →
      dropSpace (g ++ (t ++ s)) ≠ ']' :: u := by
    intro j g t s hg ht heq
    obtain ⟨c, v, rfl, hspace, hc⟩ := ht.begins
    rw [dropSpace_gap hg, List.cons_append, dropSpace_cons hspace] at heq
    exact hc (List.cons.inj heq).1
  cases h with
  | last hg ht hg' =>
    simp only [List.append_assoc]
    exact hfirst _ hg ht
  | cons hg ht hg' hts =>
    simp only [List.append_assoc]
    exact hfirst _ hg ht

theorem WrittenMembers.ne_close {members : List (String × Json)} {t : List Char}
    (h : WrittenMembers members t) (r u : List Char) : dropSpace (t ++ r) ≠ '}' :: u := by
  intro heq
  cases h with
  | last hg =>
    rw [List.append_assoc, dropSpace_gap hg, toList_quoted] at heq
    exact absurd (List.cons.inj heq).1 (by decide)
  | cons hg =>
    rw [List.append_assoc, dropSpace_gap hg, toList_quoted] at heq
    exact absurd (List.cons.inj heq).1 (by decide)

theorem readsValues_succ {fuel : ℕ} (hitems : ReadsItems fuel) (hmembers : ReadsMembers fuel) :
    ReadsValues (fuel + 1) := by
  intro w j t r hw ht hr hlen
  -- one case for each form; what is read next is told by the first character
  cases ht with
  | null => rfl
  | bool b => cases b <;> rfl
  | integer hn => rw [value?_number (beginsNumber_integer _ r), number?_integer hn hr]
  | double hx => rw [value?_number (beginsNumber_double hx r), number?_double hx hr]
  | string s =>
    have hw : w = .all := hw
    rw [toList_quoted, List.cons_append, List.append_assoc, hw]
    show (string? true _).map _ = _
    rw [List.singleton_append, string?_quoted]
    rfl
  | emptyArray hg =>
    rw [List.cons_append, value?, dropSpace_cons rfl, List.append_assoc]
    simp only [dropSpace_gap hg]
    rfl
  | array h =>
    have hw : w = .all := hw
    rw [List.cons_append, value?, dropSpace_cons rfl, hw]
    simp only
    split
    · rename_i heq
      exact absurd heq (h.ne_close r _)
    · rw [items?_dropSpace, hitems r h (Nat.le_of_succ_le_succ hlen)]
      rfl
  | emptyObject hg =>
    rw [List.cons_append, value?, dropSpace_cons rfl, List.append_assoc]
    simp only [dropSpace_gap hg]
    rfl
  | object h =>
    rw [List.cons_append, value?, dropSpace_cons rfl]
    simp only
    split
    · rename_i heq
      exact absurd heq (h.ne_close r _)
    · rw [members?_dropSpace, hmembers r hw h (Nat.le_of_succ_le_succ hlen)]
      rfl

theorem readsItems_succ {fuel : ℕ} (hvalues : ReadsValues fuel) (hitems : ReadsItems fuel) :
    ReadsItems (fuel + 1) := by
  intro items t r ht hlen
  -- the last item is followed by the bracket, any other one by a comma
  cases ht with
  | last hg ht hg' =>
    rename_i j g t g'
    simp only [List.length_append, List.length_singleton] at hlen
    have hstop := stopsAt_gap hg' (c := ']') (by decide) r
    have hread := hvalues (g' ++ ']' :: r) (Wanted.covers_all j) ht hstop (by omega)
    simp only [List.append_assoc, List.singleton_append]
    rw [items?, value?_gap hg]
    show (value? .all fuel _).bind _ = _
    rw [hread, Option.bind_some]
    simp only [dropSpace_gap hg', dropSpace_cons (c := ']') rfl]
    rfl
  | cons hg ht hg' hts =>
    rename_i j js g t g' ts
    simp only [List.length_append, List.length_cons] at hlen
    have hstop := stopsAt_gap hg' (c := ',') (by decide) (ts ++ r)
    have hread := hvalues (g' ++ ',' :: (ts ++ r)) (Wanted.covers_all j) ht hstop (by omega)
    simp only [List.append_assoc, List.cons_append]
    rw [items?, value?_gap hg]
    show (value? .all fuel _).bind _ = _
    rw [hread, Option.bind_some]
    simp only [dropSpace_gap hg', dropSpace_cons (c := ',') rfl, hitems r hts (by omega)]
    rfl

/-- What is read of an object from the end of a value on. -/
def afterMember? (w : Wanted) (fuel : ℕ) (name : String) (j : Json) (s : List Char) :
    Option (List (String × Json) × List Char) :=
  match dropSpace s with
  | ',' :: s => do
    let (ms, s) ← members? w fuel s
    return ((name, j) :: ms, s)
  | '}' :: s => return ([(name, j)], s)
  | _ => none

/-- A member is read up to the end of its value. -/
theorem members?_name {w : Wanted} (hw : w.self = true) (fuel : ℕ) {g u : List Char} (hg : Space g)
    (hu : Space u) (name : String) (s : List Char) :
    members? w (fuel + 1) (g ++ ((quoted name).toList ++ ':' :: (u ++ s))) =
      (value? (w.member name) fuel s).bind fun (j, s) => afterMember? w fuel name j s := by
  rw [members?, dropSpace_gap hg, toList_quoted, List.cons_append, List.append_assoc,
    dropSpace_cons rfl, hw]
  simp only [List.singleton_append]
  show (string? true _).bind _ = _
  rw [string?_quoted, Option.bind_some]
  simp only [dropSpace_cons (c := ':') rfl]
  rw [value?_gap hu]
  rfl

theorem readsMembers_succ {fuel : ℕ} (hvalues : ReadsValues fuel) (hmembers : ReadsMembers fuel) :
    ReadsMembers (fuel + 1) := by
  intro w members t r hw ht hlen
  -- every member that is there is wanted, so none is passed over
  obtain ⟨hself, hall⟩ := hw
  cases ht with
  | last hg hu ht hg' =>
    rename_i name j g u t g'
    simp only [List.length_append, List.length_cons] at hlen
    have hstop := stopsAt_gap hg' (c := '}') (by decide) r
    have hread := hvalues (g' ++ '}' :: r) (Wanted.covers_all j) ht hstop (by omega)
    have hmember : w.member name = .all := hall _ List.mem_cons_self
    simp only [List.append_assoc, List.cons_append, List.nil_append]
    rw [members?_name hself fuel hg hu, hmember, hread, Option.bind_some]
    simp only [afterMember?, dropSpace_gap hg', dropSpace_cons (c := '}') rfl]
    rfl
  | cons hg hu ht hg' hts =>
    rename_i name j ms g u t g' ts
    simp only [List.length_append, List.length_cons] at hlen
    have hstop := stopsAt_gap hg' (c := ',') (by decide) (ts ++ r)
    have hread := hvalues (g' ++ ',' :: (ts ++ r)) (Wanted.covers_all j) ht hstop (by omega)
    have hmember : w.member name = .all := hall _ List.mem_cons_self
    have hrest := hmembers r ⟨hself, fun m hm => hall m (List.mem_cons_of_mem _ hm)⟩ hts (by omega)
    simp only [List.append_assoc, List.cons_append]
    rw [members?_name hself fuel hg hu, hmember, hread, Option.bind_some]
    simp only [afterMember?, dropSpace_gap hg', dropSpace_cons (c := ',') rfl, hrest]
    rfl

/-- A budget of the length of the text is enough. -/
theorem reads (fuel : ℕ) : ReadsValues fuel ∧ ReadsItems fuel ∧ ReadsMembers fuel := by
  induction fuel with
  | zero =>
    -- no text of a value is empty
    refine ⟨fun r hw ht hr hlen => ?_, fun r ht hlen => ?_, fun r hw ht hlen => ?_⟩
    · obtain ⟨c, s, rfl, -⟩ := ht.begins
      cases hlen
    · cases ht <;> simp only [List.length_append, List.length_cons] at hlen <;> omega
    · cases ht <;> simp only [List.length_append, List.length_cons] at hlen <;> omega
  | succ fuel ih =>
    obtain ⟨hvalues, hitems, hmembers⟩ := ih
    exact ⟨readsValues_succ hitems hmembers, readsItems_succ hvalues hitems,
      readsMembers_succ hvalues hmembers⟩

/-- A text that is a value is read as it. -/
theorem readWanted?_written {w : Wanted} {j : Json} {s : String} (hw : w.Covers j)
    (h : Written j s.toList) : readWanted? w s = some j := by
  have hread := (reads (2 * s.toList.length + 2)).1 [] hw h (fun _ hc => nomatch hc) (by omega)
  rw [List.append_nil] at hread
  unfold readWanted?
  show (value? w (2 * s.toList.length + 2) s.toList).bind _ = _
  rw [hread]
  rfl

/-! ## The layouts of the writer -/

/-- The numbers in the value can be written so that they are read back. -/
inductive Exact : Json → Prop where
  | null : Exact .null
  | bool (b : Bool) : Exact (.bool b)
  | integer {n : Int} : isSmall n = true → Exact (.integer n)
  | double {x : Float} : x.isFinite = true → Exact (.double x)
  | string (s : String) : Exact (.string s)
  | array {items : List Json} : (∀ j ∈ items, Exact j) → Exact (.array items)
  | object {members : List (String × Json)} : (∀ m ∈ members, Exact m.2) → Exact (.object members)

theorem compactItems_eq (items : List Json) : compactItems items = items.map compact := by
  induction items with
  | nil => rfl
  | cons j items ih => rw [compactItems, ih, List.map_cons]

theorem compactMembers_eq (members : List (String × Json)) :
    compactMembers members = members.map fun m => quoted m.1 ++ ":" ++ m.2.compact := by
  induction members with
  | nil => rfl
  | cons m members ih => rw [compactMembers, ih, List.map_cons]

theorem prettyItems_eq (level : ℕ) (items : List Json) :
    prettyItems level items = items.map (prettyAt level) := by
  induction items with
  | nil => rfl
  | cons j items ih => rw [prettyItems, ih, List.map_cons]

theorem prettyMembers_eq (level : ℕ) (members : List (String × Json)) :
    prettyMembers level members =
      members.map fun m => quoted m.1 ++ ": " ++ m.2.prettyAt level := by
  induction members with
  | nil => rfl
  | cons m members ih => rw [prettyMembers, ih, List.map_cons]

/-- Items between commas, with the same white space in front of each. -/
theorem writtenItems_intercalate (f : Json → List Char) {g g' : List Char} (hg : Space g)
    (hg' : Space g') {items : List Json} (hne : items ≠ [])
    (hf : ∀ j ∈ items, Written j (f j)) :
    WrittenItems items ([','].intercalate (items.map fun j => g ++ f j) ++ (g' ++ [']'])) := by
  induction items with
  | nil => exact absurd rfl hne
  | cons j items ih =>
    obtain ⟨hj, hitems⟩ := List.forall_mem_cons.mp hf
    -- a comma stands only between two items, so the last one is a case of its own
    cases items with
    | nil =>
      rw [List.map_singleton, List.intercalate_singleton, List.append_assoc]
      exact .last hg hj hg'
    | cons j' items =>
      have htail := ih (List.cons_ne_nil _ _) hitems
      rw [List.map_cons] at htail
      rw [List.map_cons, List.map_cons, List.intercalate_cons_cons, List.append_assoc,
        List.append_assoc, List.append_assoc]
      exact .cons hg hj .nil htail

/-- Members between commas, with the same white space in front of each and behind each colon. -/
theorem writtenMembers_intercalate (f : Json → List Char) {g u g' : List Char} (hg : Space g)
    (hu : Space u) (hg' : Space g') {members : List (String × Json)} (hne : members ≠ [])
    (hf : ∀ m ∈ members, Written m.2 (f m.2)) :
    WrittenMembers members ([','].intercalate (members.map fun m =>
      g ++ ((quoted m.1).toList ++ ':' :: (u ++ f m.2))) ++ (g' ++ ['}'])) := by
  induction members with
  | nil => exact absurd rfl hne
  | cons m members ih =>
    obtain ⟨hm, hmembers⟩ := List.forall_mem_cons.mp hf
    -- a comma stands in front of every member but the first
    cases members with
    | nil =>
      rw [List.map_singleton, List.intercalate_singleton]
      simp only [List.append_assoc, List.cons_append]
      exact .last hg hu hm hg'
    | cons m' members =>
      have htail := ih (List.cons_ne_nil _ _) hmembers
      rw [List.map_cons] at htail
      rw [List.map_cons, List.map_cons, List.intercalate_cons_cons]
      simp only [List.append_assoc, List.cons_append, List.nil_append]
      have hcons : WrittenMembers (m :: m' :: members) _ := .cons hg hu hm .nil htail
      rw [List.nil_append] at hcons
      exact hcons

/-- On one line, the value is written without white space. -/
theorem written_compact {j : Json} (h : Exact j) : Written j j.compact.toList := by
  induction h with
  | null => exact .null
  | bool b => cases b <;> exact .bool _
  | integer hn => exact .integer hn
  | double hx => exact .double hx
  | string s => exact .string s
  | @array items _ ih =>
    -- an empty list has no entry that the brackets could belong to
    by_cases hne : items = []
    · rw [hne]
      exact .emptyArray .nil
    · have hitems := writtenItems_intercalate (fun j => j.compact.toList) .nil .nil hne ih
      rw [compact, compactItems_eq, String.toList_append, String.toList_append,
        String.toList_intercalate, List.map_map]
      exact .array hitems
  | @object members _ ih =>
    by_cases hne : members = []
    · rw [hne]
      exact .emptyObject .nil
    · have hmembers := writtenMembers_intercalate (fun j => j.compact.toList) .nil .nil .nil hne ih
      have htext : String.toList ∘ (fun m : String × Json => quoted m.1 ++ ":" ++ m.2.compact) =
          fun m => [] ++ ((quoted m.1).toList ++ ':' :: ([] ++ m.2.compact.toList)) := by
        funext m
        simp
      rw [compact, compactMembers_eq, String.toList_append, String.toList_append,
        String.toList_intercalate, List.map_map, htext]
      exact .object hmembers

theorem space_indent (level : ℕ) : Space ('\n' :: (indent level).toList) := by
  intro c hc
  rw [indent, String.toList_ofList] at hc
  rcases List.mem_cons.mp hc with rfl | hc
  · rfl
  · rw [List.eq_of_mem_replicate hc]
    rfl

/-- The line break between entries can be seen as the beginning of the next entry. -/
theorem cons_intercalate {c : Char} {entries : List (List Char)} (hne : entries ≠ []) :
    c :: [',', c].intercalate entries = [','].intercalate (entries.map (c :: ·)) := by
  induction entries with
  | nil => exact absurd rfl hne
  | cons e entries ih =>
    cases entries with
    | nil => simp
    | cons e' entries =>
      have htail := ih (List.cons_ne_nil _ _)
      rw [List.map_cons] at htail
      rw [List.map_cons, List.map_cons, List.intercalate_cons_cons, List.intercalate_cons_cons,
        ← htail]
      simp

theorem toList_block (opening closing : String) (level : ℕ) {entries : List String}
    (hne : entries ≠ []) : (block opening closing level entries).toList =
      opening.toList ++ ([','].intercalate (entries.map fun e =>
          '\n' :: (indent (level + 1)).toList ++ e.toList) ++
        ('\n' :: (indent level).toList ++ closing.toList)) := by
  obtain ⟨e, rest, rfl⟩ := List.exists_cons_of_ne_nil hne
  -- each entry on a line of its own, with the break in front of it and not behind the comma
  let lines := (e :: rest).map fun e => (indent (level + 1)).toList ++ e.toList
  have hlines : '\n' :: [',', '\n'].intercalate lines = [','].intercalate (lines.map ('\n' :: ·)) :=
    cons_intercalate (List.cons_ne_nil _ _)
  have htext : (block opening closing level (e :: rest)).toList =
      opening.toList ++ ('\n' :: [',', '\n'].intercalate lines ++
        ('\n' :: (indent level).toList ++ closing.toList)) := by
    have hmap : ((e :: rest).map (indent (level + 1) ++ ·)).map String.toList = lines := by
      rw [List.map_map]
      exact List.map_congr_left fun e _ => String.toList_append
    unfold block
    simp only [String.toList_append, String.toList_intercalate, hmap, List.append_assoc]
    rfl
  rw [htext, hlines, List.map_map]
  rfl

/-- Over several lines, every item and member follows the break and the indent of its line. -/
theorem written_prettyAt {j : Json} (h : Exact j) : ∀ level, Written j (j.prettyAt level).toList := by
  -- the level is general, since the parts are written one level further in
  induction h with
  | null => exact fun _ => .null
  | bool b => exact fun _ => written_compact (.bool b)
  | integer hn => exact fun _ => .integer hn
  | double hx => exact fun _ => .double hx
  | string s => exact fun _ => .string s
  | @array items _ ih =>
    intro level
    by_cases hne : items = []
    · rw [hne, prettyAt, prettyItems, block, String.toList_append]
      exact .emptyArray .nil
    · have hitems := writtenItems_intercalate (fun j => (j.prettyAt (level + 1)).toList)
        (space_indent (level + 1)) (space_indent level) hne fun j hj => ih j hj (level + 1)
      rw [prettyAt, prettyItems_eq, toList_block _ _ _ (by simpa using hne), List.map_map]
      exact .array hitems
  | @object members _ ih =>
    intro level
    by_cases hne : members = []
    · rw [hne, prettyAt, prettyMembers, block, String.toList_append]
      exact .emptyObject .nil
    · have hblank : Space [' '] := fun c hc => by rw [List.mem_singleton.mp hc]; rfl
      have hmembers := writtenMembers_intercalate (fun j => (j.prettyAt (level + 1)).toList)
        (space_indent (level + 1)) hblank (space_indent level) hne fun m hm => ih m hm (level + 1)
      have htext : (fun e : String => '\n' :: (indent (level + 1)).toList ++ e.toList) ∘
          (fun m : String × Json => quoted m.1 ++ ": " ++ m.2.prettyAt (level + 1)) = fun m =>
            '\n' :: (indent (level + 1)).toList ++ ((quoted m.1).toList ++
              ':' :: ([' '] ++ (m.2.prettyAt (level + 1)).toList)) := by
        funext m
        simp
      rw [prettyAt, prettyMembers_eq, toList_block _ _ _ (by simpa using hne), List.map_map, htext]
      exact .object hmembers

/-- **Either layout is read back.** -/
theorem readWanted?_layouts {w : Wanted} {j : Json} (hw : w.Covers j) (h : Exact j) :
    readWanted? w j.compact = some j ∧ readWanted? w j.pretty = some j :=
  ⟨readWanted?_written hw (written_compact h), readWanted?_written hw (written_prettyAt h 0)⟩

end FactorStudy.Json
