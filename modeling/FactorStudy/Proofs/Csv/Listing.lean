import FactorStudy.Csv.Panels
import FactorStudy.Proofs.Decimal.Text
import FactorStudy.Proofs.Files.Path

/-!
# Panels that are listed and panels that are opened

A listing takes the bar length of a panel from the name of its file as it is written there, and
asks nothing but that it can be read as one. A panel is opened under the main written form of its
bar length. So a listed panel is opened if and only if it is also listed under the main form, for a
file and not for a folder, and the path to that file is not too long; and every panel that is opened
is listed under that form (`exists_lists`).
-/

namespace FactorStudy

/-! ## Listings of pairs -/

namespace Listing

/-- A symbol is listed with the text of a bar length. -/
def Has (l : Listing) (symbol text : String) : Prop := ∃ texts, (symbol, texts) ∈ l ∧ text ∈ texts

theorem has_cons_iff {symbol symbol' text : String} {texts : List String} {rest : Listing} :
    Has ((symbol', texts) :: rest) symbol text ↔
      (symbol = symbol' ∧ text ∈ texts) ∨ rest.Has symbol text := by
  unfold Has
  constructor
  · rintro ⟨l, hmem, htext⟩
    rcases List.mem_cons.mp hmem with heq | hmem
    · obtain ⟨rfl, rfl⟩ := Prod.mk.inj heq
      exact .inl ⟨rfl, htext⟩
    · exact .inr ⟨l, hmem, htext⟩
  · rintro (⟨rfl, htext⟩ | ⟨l, hmem, htext⟩)
    · exact ⟨texts, List.mem_cons_self, htext⟩
    · exact ⟨l, List.mem_cons_of_mem _ hmem, htext⟩

theorem has_add_iff {entry : String × String} {l : Listing} {symbol text : String} :
    (add entry l).Has symbol text ↔ (symbol, text) = entry ∨ l.Has symbol text := by
  obtain ⟨symbol', text'⟩ := entry
  rw [Prod.mk.injEq]
  cases l with
  | nil => simp [add, Has]
  | cons first rest =>
    obtain ⟨symbol'', texts⟩ := first
    by_cases h : symbol' = symbol''
    · subst h
      rw [add, if_pos rfl, has_cons_iff, has_cons_iff, List.mem_cons]
      tauto
    · rw [add, if_neg h, has_cons_iff, List.mem_singleton]

theorem mem_eraseReps {α : Type} [BEq α] [LawfulBEq α] {xs : List α} {a : α} :
    a ∈ xs.eraseReps ↔ a ∈ xs := by
  -- the loop keeps what it has already taken in reverse
  have hloop : ∀ (xs : List α) (b : α) (acc : List α),
      a ∈ List.eraseRepsBy.loop (· == ·) b xs acc ↔ a = b ∨ a ∈ xs ∨ a ∈ acc := by
    intro xs
    induction xs with
    | nil => simp [List.eraseRepsBy.loop, or_comm]
    | cons c xs ih =>
      intro b acc
      rw [List.eraseRepsBy.loop]
      split
      · rename_i h
        rw [ih, beq_iff_eq.mp h, List.mem_cons]
        tauto
      · rw [ih, List.mem_cons, List.mem_cons]
        tauto
  cases xs with
  | nil => rfl
  | cons b xs => simp [List.eraseReps, List.eraseRepsBy, hloop]

/-- What is listed is what was to be listed. -/
theorem has_ofPairs_iff {pairs : List (String × String)} {symbol text : String} :
    (ofPairs pairs).Has symbol text ↔ (symbol, text) ∈ pairs := by
  have hfold : ∀ pairs : List (String × String),
      Has (pairs.foldr add []) symbol text ↔ (symbol, text) ∈ pairs := by
    intro pairs
    induction pairs with
    | nil => simp [Has]
    | cons entry pairs ih => rw [List.foldr_cons, has_add_iff, ih, List.mem_cons]
  rw [ofPairs, hfold, mem_eraseReps, List.mem_mergeSort]

end Listing

/-! ## Texts of bar lengths -/

namespace Text

variable {s : List Char}

theorem mem_trimBlank {c : Char} (hc : isBlank c = false) : c ∈ trimBlank s ↔ c ∈ s := by
  have hdrop : ∀ s : List Char, c ∈ dropBlank s ↔ c ∈ s := by
    intro s
    refine ⟨fun h => (dropBlank_suffix s).mem h, fun h => ?_⟩
    rw [← List.takeWhile_append_dropWhile (p := isBlank) (l := s)] at h
    refine (List.mem_append.mp h).resolve_left fun h => ?_
    rw [Grammar.mem_takeWhile isBlank s c h] at hc
    cases hc
  rw [trimBlank, List.mem_reverse, hdrop, List.mem_reverse, hdrop]

theorem trimBlank_eq_self (h : ∀ c ∈ s, isBlank c = false) : trimBlank s = s := by
  have hdrop : ∀ {s : List Char}, (∀ c ∈ s, isBlank c = false) → dropBlank s = s :=
    fun h => Grammar.dropWhile_eq_self_of_stopsAt fun c hc => h c (List.mem_of_head? hc)
  rw [trimBlank, hdrop h, hdrop fun c hc => h c (List.mem_reverse.mp hc), List.reverse_reverse]

end Text

namespace BarUnit

theorem named?_symbol (u : BarUnit) : named? u.symbol = some u := by
  cases u <;> decide

theorem not_mem_of_named? {name : String} {u : BarUnit} (h : named? name = some u) :
    '_' ∉ name.toList := by
  unfold named? at h
  split_ifs at h with hminutes hhours hdays hweeks
  · rcases hminutes with rfl | rfl <;> decide
  · rw [hhours]
    decide
  · rw [hdays]
    decide
  · rw [hweeks]
    decide

end BarUnit

namespace Interval

/-- A text of a bar length is a count and a unit, blanks around them aside. -/
theorem exists_of_read {s : String} {i : Interval} (h : read s = .ok i) :
    ∃ digits name, Text.trimBlank s.toList = digits ++ name ∧ (∀ c ∈ digits, c.isDigit = true) ∧
      Decimal.ofDigits digits = i.count ∧ i.count < 2 ^ 32 ∧
        BarUnit.named? (String.ofList name) = some i.unit := by
  unfold read at h
  dsimp only at h
  split_ifs at h with hunit hcount hpos
  split at h
  · rename_i u hnamed
    cases h
    exact ⟨_, _, List.takeWhile_append_dropWhile.symm, Grammar.mem_takeWhile _ _, rfl,
      lt_of_not_ge (not_or.mp hcount).2, hnamed⟩
  · cases h

theorem count_lt_of_read {s : String} {i : Interval} (h : read s = .ok i) : i.count < 2 ^ 32 := by
  obtain ⟨_, _, -, -, -, hcount, -⟩ := exists_of_read h
  exact hcount

theorem not_mem_of_read {s : String} {i : Interval} (h : read s = .ok i) : '_' ∉ s.toList := by
  obtain ⟨digits, name, htext, hdigits, -, -, hnamed⟩ := exists_of_read h
  have hname := BarUnit.not_mem_of_named? hnamed
  rw [String.toList_ofList] at hname
  rw [← Text.mem_trimBlank (by decide), htext, List.mem_append]
  rintro (h | h)
  · have hdigit := hdigits _ h
    revert hdigit
    decide
  · exact hname h

theorem toList_text (i : Interval) :
    i.text.toList = Decimal.digitsOf i.count ++ i.unit.symbol.toList := by
  rw [text, String.toList_append, Nat.toString_eq_repr, Nat.toList_repr]
  rfl

/-- The main form is read as what it stands for. -/
theorem read_text {i : Interval} (h : i.count < 2 ^ 32) : read i.text = .ok i := by
  have hdigits : ∀ c ∈ Decimal.digitsOf i.count, c.isDigit = true :=
    fun c hc => Decimal.isDigit_of_mem_digitsOf hc
  have hstop : Grammar.StopsAt Char.isDigit i.unit.symbol.toList := by
    cases i.unit <;> exact Grammar.stopsAt_cons (by decide)
  -- neither digits nor unit letters are blank, so nothing is trimmed
  have htrim : Text.trimBlank i.text.toList = i.text.toList := by
    refine Text.trimBlank_eq_self fun c hc => ?_
    rw [toList_text, List.mem_append] at hc
    rcases hc with hc | hc
    · exact Grammar.isBlank_eq_false_of_isWordChar (Grammar.isWordChar_of_isDigit (hdigits c hc))
    · have hsymbol : ∀ u : BarUnit, u.symbol.toList.all fun c => !Text.isBlank c := by
        intro u
        cases u <;> decide
      simpa using List.all_eq_true.mp (hsymbol i.unit) c hc
  -- the digits end where the unit begins
  have hcount : i.text.toList.takeWhile Char.isDigit = Decimal.digitsOf i.count := by
    rw [toList_text, Grammar.takeWhile_append_of_stopsAt hdigits hstop]
  have hunit : String.ofList (i.text.toList.dropWhile Char.isDigit) = i.unit.symbol := by
    rw [toList_text, Grammar.dropWhile_append_of_stopsAt hdigits hstop, String.ofList_toList]
  have hsome : i.unit.symbol ≠ "" := by
    cases i.unit <;> decide
  have hfits : ¬ (Decimal.digitsOf i.count = [] ∨ Nat.pow 2 32 ≤ i.count) :=
    not_or.mpr ⟨Nat.toDigits_ne_nil, not_le_of_gt h⟩
  unfold read
  simp only [htrim, hcount, hunit, Decimal.ofDigits_digitsOf, if_neg hsome, if_neg hfits,
    dif_pos i.count_pos, BarUnit.named?_symbol]

end Interval

namespace Csv

/-! ## Names of files -/

variable {symbol text name : String} {i : Interval}

theorem toList_name : (symbol ++ "_" ++ text ++ ".csv").toList =
    symbol.toList ++ '_' :: text.toList ++ ".csv".toList := by
  simp only [String.toList_append, List.append_assoc]
  rfl

theorem take_stem {stem : List Char} (h : name.toList = stem ++ ".csv".toList) :
    ".csv".toList.isSuffixOf name.toList = true ∧
      name.toList.take (name.toList.length - 4) = stem := by
  rw [h, List.isSuffixOf_iff_suffix, List.length_append]
  exact ⟨List.suffix_append _ _, List.take_left⟩

theorem forall_ne_mark {cs : List Char} (h : '_' ∉ cs) :
    ∀ c ∈ cs.reverse, decide (c ≠ '_') = true := by
  intro c hc
  rw [decide_eq_true_iff]
  rintro rfl
  exact h (List.mem_reverse.mp hc)

/-- A name is parted at its last underscore. -/
theorem nameParts?_of_parted {before after : List Char} (hafter : '_' ∉ after)
    (h : name.toList = before ++ '_' :: after ++ ".csv".toList) :
    nameParts? name = if before ≠ [] ∧ (Interval.read (String.ofList after)).isOk then
      some (String.ofList before, String.ofList after) else none := by
  obtain ⟨hsuffix, hstem⟩ := take_stem h
  -- the name is searched from its end, where the first mark is the last one
  have hreverse : (before ++ '_' :: after).reverse = after.reverse ++ '_' :: before.reverse := by
    simp
  have hplain := forall_ne_mark hafter
  have hstop : Grammar.StopsAt (· ≠ '_') ('_' :: before.reverse) :=
    Grammar.stopsAt_cons (by decide)
  unfold nameParts?
  simp only [hsuffix, hstem, hreverse, Grammar.takeWhile_append_of_stopsAt hplain hstop,
    Grammar.dropWhile_append_of_stopsAt hplain hstop, List.reverse_reverse, if_true]
  cases hbefore : before.reverse with
  -- nothing in front of the mark: no symbol, and no panel
  | nil =>
    obtain rfl := List.reverse_eq_nil_iff.mp hbefore
    simp
  | cons c rest =>
    have hsome : before ≠ [] := by
      rintro rfl
      cases hbefore
    simp only [ne_eq, hsome, not_false_iff, true_and, ← hbefore, List.reverse_reverse]

/-- A name without an underscore has no parts. -/
theorem nameParts?_of_not_mem {stem : List Char} (hstem : '_' ∉ stem)
    (h : name.toList = stem ++ ".csv".toList) : nameParts? name = none := by
  obtain ⟨hsuffix, hstem'⟩ := take_stem h
  have hdrop : stem.reverse.dropWhile (fun c => decide (c ≠ '_')) = [] :=
    List.dropWhile_eq_nil_iff.mpr (forall_ne_mark hstem)
  unfold nameParts?
  simp only [hsuffix, hstem', hdrop, if_true]

/-- The parts of a name are a symbol and the text of a bar length. -/
theorem nameParts?_eq_some_iff : nameParts? name = some (symbol, text) ↔
    name = symbol ++ "_" ++ text ++ ".csv" ∧ symbol ≠ "" ∧ ∃ i, Interval.read text = .ok i := by
  have hsome : symbol.toList ≠ [] ↔ symbol ≠ "" := by
    rw [Ne, Ne, ← String.toList_inj, String.toList_empty]
  constructor
  · intro h
    have hsuffix : ".csv".toList <:+ name.toList := by
      rw [← List.isSuffixOf_iff_suffix]
      by_contra hnone
      rw [nameParts?, if_neg hnone] at h
      cases h
    obtain ⟨stem, hstem⟩ := hsuffix
    by_cases hmark : '_' ∈ stem
    · -- the last underscore is the first one from behind
      obtain ⟨after, before, hsplit, hafter⟩ :=
        List.eq_append_cons_of_mem (List.mem_reverse.mpr hmark)
      have hsplit : stem = before.reverse ++ '_' :: after.reverse := by
        rw [← List.reverse_reverse stem, hsplit]
        simp
      rw [hsplit] at hstem
      rw [nameParts?_of_parted (by rwa [List.mem_reverse]) hstem.symm] at h
      split_ifs at h with hparts
      obtain ⟨hsymbol, htext⟩ := Prod.mk.inj (Option.some.inj h)
      rw [htext] at hparts
      refine ⟨String.toList_inj.mp ?_, hsome.mp ?_, isOk_iff.mp hparts.2⟩
      · rw [toList_name, ← hsymbol, ← htext, String.toList_ofList, String.toList_ofList, hstem]
      · rw [← hsymbol, String.toList_ofList]
        exact hparts.1
    · rw [nameParts?_of_not_mem hmark hstem.symm] at h
      cases h
  · rintro ⟨rfl, hsymbol, hread⟩
    obtain ⟨i, hi⟩ := hread
    rw [nameParts?_of_parted (Interval.not_mem_of_read hi) toList_name, String.ofList_toList,
      String.ofList_toList, if_pos ⟨hsome.mpr hsymbol, isOk_iff.mpr ⟨i, hi⟩⟩]

theorem toList_fileName : (fileName symbol i).toList =
    symbol.toList ++ '_' :: i.text.toList ++ ".csv".toList := toList_name

theorem isName_fileName (h : '/' ∉ symbol.toList) : Path.IsName (fileName symbol i) := by
  have hlength : 4 ≤ (fileName symbol i).toList.length := by
    rw [toList_fileName, List.length_append]
    exact Nat.le_add_left _ _
  -- a name of that length is none of the short steps
  have hshort : ∀ step : String, step.toList.length < 4 → fileName symbol i ≠ step := by
    rintro step hstep rfl
    exact absurd hlength (not_le_of_gt hstep)
  refine ⟨?_, ?_, hshort ".." (by decide)⟩
  · have htext : '/' ∉ i.text.toList := by
      rw [Interval.toList_text, List.mem_append]
      rintro (hc | hc)
      · have hdigit := Decimal.isDigit_of_mem_digitsOf hc
        revert hdigit
        decide
      · revert hc
        cases i.unit <;> decide
    rw [toList_fileName, List.mem_append, List.mem_append, List.mem_cons]
    rintro ((hc | hc | hc) | hc)
    · exact h hc
    · cases hc
    · exact htext hc
    · revert hc
      decide
  · rw [Path.stays, Bool.or_eq_false_iff, beq_eq_false_iff_ne, beq_eq_false_iff_ne]
    exact ⟨hshort "" (by decide), hshort "." (by decide)⟩

/-! ## Panels that are opened -/

/-- The path of the file of a panel. -/
def panelPath (folder : Path) (symbol : String) (i : Interval) : Path :=
  folder.join (.ofText (fileName symbol i))

/-- What is opened for a panel: a file under the main name, whose path is not too long. -/
structure Opens (es : Folder) (folder : Path) (symbol : String) (i : Interval) (node : Node) :
    Prop where
  entry : es.lookup (fileName symbol i) = some node
  file : ∀ inner, node ≠ .folder inner
  short : (panelPath folder symbol i).text.utf8ByteSize ≤ Path.lengthLimit

/-- A name that a file system gives to an entry of a folder. -/
structure IsEntryName (name : String) : Prop where
  closed : '/' ∉ name.toList
  clean : '\x00' ∉ name.toList
  fits : Folder.Fits name

variable {t : FileTree} {folder : Path} {es : Folder} {node : Node}

theorem node_panelPath_iff (h : t.folder folder = .ok es) (hes : ∀ e ∈ es, IsEntryName e.1)
    (hsymbol : '/' ∉ symbol.toList) :
    (t.node (panelPath folder symbol i) = .ok node ∧ ∀ inner, node ≠ .folder inner) ↔
      Opens es folder symbol i node := by
  have hname := isName_fileName (i := i) hsymbol
  have hnode : t.node (panelPath folder symbol i) = _ := FileTree.node_join h hname
  cases hlookup : es.lookup (fileName symbol i) with
  | none =>
    rw [hlookup] at hnode
    -- without an entry no path leads to a file, whether or not the name could be looked for
    refine iff_of_false ?_ fun hopens => ?_
    · rintro ⟨hfound, -⟩
      rw [hnode] at hfound
      obtain ⟨-, -, hfound⟩ := exists_of_bind_eq_ok hfound
      obtain ⟨-, -, hfound⟩ := exists_of_bind_eq_ok hfound
      cases hfound
    · have hentry := hopens.entry
      rw [hlookup] at hentry
      cases hentry
  | some found =>
    obtain ⟨e, he, hfile⟩ := Folder.exists_lookup_iff.mp ⟨found, hlookup⟩
    have hentry := hes e he
    rw [hfile] at hentry
    have hcheck := FileTree.check_of_folder h
    rw [hlookup, Folder.checkName_of_fits hentry.fits,
      Path.check_join hname hentry.clean hcheck] at hnode
    rw [hnode]
    split_ifs with hlong
    · refine iff_of_false ?_ fun hopens => absurd hopens.short (not_le_of_gt hlong)
      rintro ⟨hfound, -⟩
      cases hfound
    · constructor
      · rintro ⟨hfound, hfile⟩
        obtain rfl := Except.ok.inj hfound
        exact ⟨hlookup, hfile, not_lt.mp hlong⟩
      · intro hopens
        have hentry := hopens.entry
        rw [hlookup] at hentry
        obtain rfl := Option.some.inj hentry
        exact ⟨rfl, hopens.file⟩

theorem fetch_of_opens (h : t.folder folder = .ok es) (hes : ∀ e ∈ es, IsEntryName e.1)
    (hsymbol : '/' ∉ symbol.toList) (hopens : Opens es folder symbol i node)
    (start finish : Option Timestamp) :
    fetch t folder ⟨symbol, i, start, finish⟩ =
      ((Folder.content (some node)).mapError Error.file).bind fun content =>
        panel (panelPath folder symbol i) content ⟨symbol, i, start, finish⟩ := by
  obtain ⟨hnode, hfile⟩ := (node_panelPath_iff h hes hsymbol).mpr hopens
  have hread : t.read (panelPath folder symbol i) = Folder.content (some node) := by
    rw [FileTree.read, hnode]
    rfl
  rw [← hread]
  exact if_pos (FileTree.isFile_iff.mpr ⟨node, hnode, hfile⟩)

theorem fetch_of_not_opens (h : t.folder folder = .ok es) (hes : ∀ e ∈ es, IsEntryName e.1)
    (hsymbol : '/' ∉ symbol.toList) (hnone : ∀ node, ¬ Opens es folder symbol i node)
    (start finish : Option Timestamp) :
    fetch t folder ⟨symbol, i, start, finish⟩ = .error (.noData symbol i) := by
  refine if_neg fun hfile => ?_
  obtain ⟨node, hnode⟩ := FileTree.isFile_iff.mp hfile
  exact hnone node ((node_panelPath_iff h hes hsymbol).mp hnode)

/-! ## Panels that are listed -/

/-- What the listing of a folder says about the panels in it.

The names of a folder's entries are texts here. A system also allows names of bytes that are not
UTF-8, and those cannot be represented in a `Folder`: they would be listed with replacement
characters for these bytes, and not be found again under what is listed. -/
structure Lists (t : FileTree) (folder : Path) (es : Folder) (l : Listing) : Prop where
  /-- A name is listed with its parts, whatever it is the name of. -/
  has_iff : ∀ symbol text, l.Has symbol text ↔ symbol ≠ "" ∧
    (∃ i, Interval.read text = .ok i) ∧ ∃ e ∈ es, e.1 = symbol ++ "_" ++ text ++ ".csv"
  /-- A listed panel is opened if its main form is listed, for a file with a short path. -/
  opens_iff : ∀ symbol text i, l.Has symbol text → Interval.read text = .ok i →
    ((∃ node, Opens es folder symbol i node) ↔ l.Has symbol i.text ∧
      (∀ inner, es.lookup (fileName symbol i) ≠ some (.folder inner)) ∧
        (panelPath folder symbol i).text.utf8ByteSize ≤ Path.lengthLimit)
  /-- A panel that is opened is listed in its main form. -/
  has_of_opens : ∀ symbol i node, symbol ≠ "" → i.count < 2 ^ 32 → Opens es folder symbol i node →
    Interval.read i.text = .ok i ∧ l.Has symbol i.text
  /-- To open a panel is to read it from its file, whatever time is asked for. -/
  fetch_of_opens : ∀ symbol i node, '/' ∉ symbol.toList → Opens es folder symbol i node →
    ∀ start finish, fetch t folder ⟨symbol, i, start, finish⟩ =
      ((Folder.content (some node)).mapError Error.file).bind fun content =>
        panel (panelPath folder symbol i) content ⟨symbol, i, start, finish⟩
  fetch_of_not_opens : ∀ symbol i, '/' ∉ symbol.toList →
    (∀ node, ¬ Opens es folder symbol i node) → ∀ start finish,
      fetch t folder ⟨symbol, i, start, finish⟩ = .error (.noData symbol i)

/-- The entries of a folder are listed by their names. -/
theorem has_listed_iff {symbol text : String} :
    (Listing.ofPairs (es.filterMap fun e => nameParts? e.1)).Has symbol text ↔ symbol ≠ "" ∧
      (∃ i, Interval.read text = .ok i) ∧ ∃ e ∈ es, e.1 = symbol ++ "_" ++ text ++ ".csv" := by
  simp only [Listing.has_ofPairs_iff, List.mem_filterMap, nameParts?_eq_some_iff]
  constructor
  · rintro ⟨e, he, hname, hsymbol, hread⟩
    exact ⟨hsymbol, hread, e, he, hname⟩
  · rintro ⟨hsymbol, hread, e, he, hname⟩
    exact ⟨e, he, hname, hsymbol, hread⟩

/-- **Listed panels and opened panels.** A folder that can be read is listed, and its list has the
names that are made of a symbol, a bar length that can be read and the ending. A panel is opened
from the file of its main form, so a listed panel is opened exactly if the main form is listed too,
for a file with a path that is short enough; and whatever is opened is listed. Without such a file
there is no data, whatever times are asked for.

A bar length is listed as it is written and looked for as it is printed, and there is more than one
way to write most of them. Where these differ, the listed panel is the one of another file, or of
none. -/
theorem exists_lists (h : t.folder folder = .ok es) (hes : ∀ e ∈ es, IsEntryName e.1) :
    ∃ l, list t folder = .ok l ∧ Lists t folder es l := by
  have hlist : list t folder = .ok (.ofPairs (es.filterMap fun e => nameParts? e.1)) := by
    rw [list, h]
    rfl
  refine ⟨_, hlist, fun _ _ => has_listed_iff, ?_, ?_, ?_, ?_⟩
  · intro symbol text i hlisted hread
    obtain ⟨hsymbol, -, -⟩ := has_listed_iff.mp hlisted
    have hmain := Interval.read_text (Interval.count_lt_of_read hread)
    rw [has_listed_iff]
    -- the main form can be read, so its file is all that is asked for
    constructor
    · rintro ⟨node, hopens⟩
      refine ⟨⟨hsymbol, ⟨i, hmain⟩, Folder.exists_lookup_iff.mp ⟨node, hopens.entry⟩⟩, ?_,
        hopens.short⟩
      intro inner hinner
      exact hopens.file inner (Option.some.inj (hopens.entry.symm.trans hinner))
    · rintro ⟨⟨-, -, hentry⟩, hfile, hshort⟩
      obtain ⟨node, hnode⟩ := Folder.exists_lookup_iff.mpr hentry
      exact ⟨node, hnode, fun inner hinner => hfile inner (hinner ▸ hnode), hshort⟩
  · intro symbol i node hsymbol hcount hopens
    have hmain := Interval.read_text hcount
    exact ⟨hmain, has_listed_iff.mpr
      ⟨hsymbol, ⟨i, hmain⟩, Folder.exists_lookup_iff.mp ⟨node, hopens.entry⟩⟩⟩
  · exact fun symbol i node hsymbol hopens => fetch_of_opens h hes hsymbol hopens
  · exact fun symbol i hsymbol hnone => fetch_of_not_opens h hes hsymbol hnone

/-- A folder in which one panel is not named in its main form, and another name is that of a
folder. -/
def stray : Folder :=
  [("BTC_1min.csv", .text "timestamp,open,high,low,close,volume\n2024-01-01,1,1,1,1,1\n"),
    ("ETH_1d.csv", .folder [])]

/-- The file tree with that folder. -/
def strayTree : FileTree := ⟨[("data", .folder stray)], []⟩

theorem exists_lists_stray : strayTree.folder ⟨["data"]⟩ = .ok stray ∧
    (∀ e ∈ stray, IsEntryName e.1) ∧ ∃ l, list strayTree ⟨["data"]⟩ = .ok l ∧
      l.Has "BTC" "1min" ∧ l.Has "ETH" "1d" ∧ ∀ start finish,
        fetch strayTree ⟨["data"]⟩ ⟨"BTC", ⟨.minutes, 1, by decide⟩, start, finish⟩ =
            .error (.noData "BTC" ⟨.minutes, 1, by decide⟩) ∧
          fetch strayTree ⟨["data"]⟩ ⟨"ETH", .daily, start, finish⟩ =
            .error (.noData "ETH" .daily) := by
  have hcheck : Path.check ⟨["data"]⟩ = .ok () := by
    rw [Path.check, String.contains_char_eq]
    decide
  have hfolder : strayTree.folder ⟨["data"]⟩ = .ok stray := by
    rw [FileTree.folder, FileTree.node, FileTree.locate, hcheck]
    rfl
  have hentries : ∀ e ∈ stray, IsEntryName e.1 := by
    simp only [stray, List.forall_mem_cons]
    exact ⟨⟨by decide, by decide, Nat.le_of_ble_eq_true rfl⟩,
      ⟨by decide, by decide, Nat.le_of_ble_eq_true rfl⟩,
      fun _ h => absurd h List.not_mem_nil⟩
  obtain ⟨l, hlist, hlists⟩ := exists_lists hfolder hentries
  have hminute : Interval.read "1min" = .ok ⟨.minutes, 1, by decide⟩ := by rfl
  have hday : Interval.read "1d" = .ok .daily := by rfl
  have hbtc : l.Has "BTC" "1min" :=
    (hlists.has_iff _ _).mpr ⟨by decide, ⟨_, hminute⟩, _, List.mem_cons_self, rfl⟩
  have heth : l.Has "ETH" "1d" :=
    (hlists.has_iff _ _).mpr
      ⟨by decide, ⟨_, hday⟩, _, List.mem_cons_of_mem _ List.mem_cons_self, rfl⟩
  refine ⟨hfolder, hentries, l, hlist, hbtc, heth, fun start finish => ⟨?_, ?_⟩⟩
  · -- the main form of one minute is `1m`, and there is no file with that in its name
    refine hlists.fetch_of_not_opens _ _ (by decide) (fun node hopens => ?_) start finish
    have hmissing : stray.lookup (fileName "BTC" ⟨.minutes, 1, by decide⟩) = none := by rfl
    rw [hopens.entry] at hmissing
    cases hmissing
  · refine hlists.fetch_of_not_opens _ _ (by decide) (fun node hopens => ?_) start finish
    have hinner : stray.lookup (fileName "ETH" .daily) = some (.folder []) := by rfl
    exact hopens.file [] (Option.some.inj (hopens.entry.symm.trans hinner))

end Csv

end FactorStudy
