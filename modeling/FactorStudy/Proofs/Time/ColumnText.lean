import FactorStudy.Proofs.Decimal.Text
import FactorStudy.Proofs.Grammar.Token
import FactorStudy.Proofs.Time.Calendar
import FactorStudy.Time.Reader

/-!
# Times in a column

A column holds a time as text, to the second. For years of four digits all the numbers in it have a
fixed width, so the order of the texts is that of the times (`columnText_le_iff`), and a text is
read as the time cut to the second (`readColumn?_columnText`).
-/

namespace FactorStudy

namespace Decimal

open Grammar (isDigit_range)

/-! ## Numbers of a fixed width -/

/-- The number in a run of digits. -/
structure Shows (n : ℕ) (s : List Char) : Prop where
  digit : ∀ c ∈ s, c.isDigit = true
  value : ofDigits s = n

/-- Of two numbers with a leading part each, the leading parts are compared first. -/
theorem mul_add_lt_iff {a b c d k : ℕ} (hb : b < k) (hd : d < k) :
    (a * k + b < c * k + d ↔ a < c ∨ a = c ∧ b < d) ∧
      (a * k + b = c * k + d ↔ a = c ∧ b = d) := by
  rcases Nat.lt_trichotomy a c with h | rfl | h
  · have hle : (a + 1) * k ≤ c * k := Nat.mul_le_mul_right k h
    rw [Nat.add_mul, Nat.one_mul] at hle
    omega
  · omega
  · have hle : (c + 1) * k ≤ a * k := Nat.mul_le_mul_right k h
    rw [Nat.add_mul, Nat.one_mul] at hle
    omega

theorem cons_le_cons_iff {c d : Char} {x y : List Char} :
    c :: x ≤ d :: y ↔ c < d ∨ c = d ∧ x ≤ y := by
  rw [← not_lt, ← not_lt, List.cons_lt_cons_iff]
  rcases lt_trichotomy c d with h | rfl | h
  · simp [h, h.not_gt, h.ne']
  · simp
  · simp [h, h.not_gt, h.ne']

/-- Runs of one length are ordered as their numbers are; behind equal ones the rest decides. -/
theorem append_le_append_iff {a b : List Char} (ha : ∀ c ∈ a, c.isDigit = true)
    (hb : ∀ c ∈ b, c.isDigit = true) (hlen : a.length = b.length) (x y : List Char) :
    a ++ x ≤ b ++ y ↔ ofDigits a < ofDigits b ∨ ofDigits a = ofDigits b ∧ x ≤ y := by
  induction a generalizing b with
  | nil =>
    obtain rfl := List.length_eq_zero_iff.mp hlen.symm
    simp
  | cons c a ih =>
    cases b with
    | nil => cases hlen
    | cons d b =>
      have hlen : a.length = b.length := Nat.succ.inj hlen
      have hc := isDigit_range (ha c List.mem_cons_self)
      have hd := isDigit_range (hb d List.mem_cons_self)
      have ha' := fun e he => ha e (List.mem_cons_of_mem c he)
      have hb' := fun e he => hb e (List.mem_cons_of_mem d he)
      have hlt : c < d ↔ c.toNat - '0'.toNat < d.toNat - '0'.toNat := by
        show c.toNat < d.toNat ↔ c.toNat - 48 < d.toNat - 48
        omega
      have heq : c = d ↔ c.toNat - '0'.toNat = d.toNat - '0'.toNat := by
        rw [← Char.toNat_inj]
        show c.toNat = d.toNat ↔ c.toNat - 48 = d.toNat - 48
        omega
      -- the first digit decides unless it is the same, since the rest is less than its unit
      obtain ⟨hsum, hsame⟩ := mul_add_lt_iff (a := c.toNat - '0'.toNat) (c := d.toNat - '0'.toNat)
        (ofDigits_lt ha') (hlen ▸ ofDigits_lt hb')
      rw [List.cons_append, List.cons_append, cons_le_cons_iff, ih ha' hb' hlen, ofDigits_cons,
        ofDigits_cons, ← hlen, hsum, hsame, hlt, heq, and_or_left, or_assoc, and_assoc]

end Decimal

namespace Timestamp

open Decimal
open Text (isBlank dropBlank)
open Grammar (isWordChar isBlank_eq_false_of_isWordChar dropBlank_cons)
open Expr.Parser (isNameChar)

theorem toList_padded (w n : ℕ) : (padded w n).toList =
    List.replicate (w - (digitsOf n).length) '0' ++ digitsOf n := String.toList_ofList

theorem showsNumber_padded (w n : ℕ) :
    Shows n (padded w n).toList ∧ 0 < (padded w n).toList.length := by
  have hpos : 0 < (digitsOf n).length := List.length_pos_iff.mpr Nat.toDigits_ne_nil
  rw [toList_padded]
  refine ⟨⟨fun c hc => ?_, ?_⟩, ?_⟩
  · exact (List.mem_append.mp hc).elim isDigit_of_mem_zeros isDigit_of_mem_digitsOf
  · rw [ofDigits_zeros_append, ofDigits_digitsOf]
  · rw [List.length_append]
    omega

theorem shows_padded {w n : ℕ} (hw : 0 < w) (hn : n < 10 ^ w) :
    Shows n (padded w n).toList ∧ (padded w n).toList.length = w := by
  have hlen : (digitsOf n).length ≤ w := (Nat.length_toDigits_le_iff (by decide) hw).mpr hn
  refine ⟨(showsNumber_padded w n).1, ?_⟩
  rw [toList_padded, List.length_append, List.length_replicate]
  omega

/-- The time cut to the second, where a leap second is a second of its own. -/
def toSecond (t : Timestamp) : Timestamp where
  date := t.date
  second := t.second
  nano := if 1000000000 ≤ t.nano then 1000000000 else 0
  second_lt := t.second_lt
  nano_lt := by split <;> decide
  leap h := t.leap (by by_contra hlt; rw [if_neg hlt] at h; omega)

theorem toSecond_nano (t : Timestamp) :
    t.toSecond.nano = if 1000000000 ≤ t.nano then 1000000000 else 0 := rfl

/-- Times with one key are one time. -/
theorem key_inj {t u : Timestamp} (h : t.key = u.key) : t = u := by
  obtain ⟨⟨y, m, d, hy, hm, hd⟩, s, n, hs, hn, hleap⟩ := t
  obtain ⟨⟨y', m', d', hy', hm', hd'⟩, s', n', hs', hn', hleap'⟩ := u
  have hdays := daysInMonth_le y m
  have hdays' := daysInMonth_le y' m'
  unfold key Date.key at h
  simp only at h
  obtain ⟨rfl, rfl, rfl, rfl, rfl⟩ : y = y' ∧ m = m' ∧ d = d' ∧ s = s' ∧ n = n' := by omega
  rfl

theorem lt_of_le_of_ne {t u : Timestamp} (hle : t ≤ u) (hne : t ≠ u) : t < u :=
  Int.lt_iff_le_and_ne.mpr ⟨hle, fun h => hne (key_inj h)⟩

theorem le_toSecond_nano (t : Timestamp) : 1000000000 ≤ t.toSecond.nano ↔ 1000000000 ≤ t.nano := by
  rw [toSecond_nano]
  split <;> omega

theorem toSecond_toSecond (t : Timestamp) : t.toSecond.toSecond = t.toSecond := by
  have hnano : t.toSecond.toSecond.nano = t.toSecond.nano := by
    rw [toSecond_nano t.toSecond, toSecond_nano]
    split <;> split <;> omega
  rw [toSecond, Timestamp.mk.injEq]
  exact ⟨rfl, rfl, hnano⟩

theorem columnText_toSecond (t : Timestamp) : t.toSecond.columnText = t.columnText := by
  simp only [columnText, clockText, le_toSecond_nano]
  rfl

/-- A whole second is up to the time `u` when it is up to the second of `u`. -/
theorem le_toSecond_iff {t u : Timestamp} (ht : t.toSecond = t) : t ≤ u.toSecond ↔ t ≤ u := by
  have hwhole : (if 1000000000 ≤ t.nano then 1000000000 else 0) = t.nano :=
    congrArg Timestamp.nano ht
  have hnano := u.nano_lt
  show t.key ≤ (u.date.key * 86400 + (u.second : ℤ)) * 2000000000 + (u.toSecond.nano : ℤ) ↔
    t.key ≤ (u.date.key * 86400 + (u.second : ℤ)) * 2000000000 + (u.nano : ℤ)
  rw [key, toSecond_nano]
  split_ifs at hwhole ⊢ <;> omega

/-- A year that is written with four digits. -/
def HasPlainYear (t : Timestamp) : Prop := 0 ≤ t.date.year ∧ t.date.year ≤ 9999

/-- The second of a minute, from 0 to 60. -/
def secondOfMinute (t : Timestamp) : ℕ := t.second % 60 + if 1000000000 ≤ t.nano then 1 else 0

variable {t u : Timestamp}

theorem toList_columnText (ht : t.HasPlainYear) : t.columnText.toList =
    (padded 4 t.date.year.natAbs).toList ++ '-' :: ((padded 2 t.date.month).toList ++ '-' ::
      ((padded 2 t.date.day).toList ++ ' ' :: ((padded 2 (t.second / 3600)).toList ++ ':' ::
        ((padded 2 (t.second / 60 % 60)).toList ++ ':' ::
          (padded 2 t.secondOfMinute).toList)))) := by
  have hyear : yearText t.date.year = padded 4 t.date.year.natAbs := if_pos ht
  have hdash : "-".toList = ['-'] := rfl
  have hblank : " ".toList = [' '] := rfl
  have hcolon : ":".toList = [':'] := rfl
  unfold columnText dateText clockText secondOfMinute
  simp only [hyear, String.toList_append, List.append_assoc, hdash, hblank, hcolon,
    List.cons_append, List.nil_append]

/-- A number of fixed width is compared before what stands behind it. -/
theorem padded_append_le_iff {w m n : ℕ} (hw : 0 < w) (hm : m < 10 ^ w) (hn : n < 10 ^ w)
    (x y : List Char) :
    (padded w m).toList ++ x ≤ (padded w n).toList ++ y ↔ m < n ∨ m = n ∧ x ≤ y := by
  obtain ⟨hshows, hlen⟩ := shows_padded hw hm
  obtain ⟨hshows', hlen'⟩ := shows_padded hw hn
  rw [append_le_append_iff hshows.digit hshows'.digit (hlen.trans hlen'.symm), hshows.value,
    hshows'.value]

/-- Every number behind the year has at most two digits. -/
theorem parts_lt (t : Timestamp) : t.date.month < 10 ^ 2 ∧ t.date.day < 10 ^ 2 ∧
    t.second / 3600 < 10 ^ 2 ∧ t.second / 60 % 60 < 10 ^ 2 ∧ t.secondOfMinute < 10 ^ 2 := by
  have hmonth := t.date.month_mem
  have hday := t.date.day_mem
  have hdays := daysInMonth_le t.date.year t.date.month
  have hsecond := t.second_lt
  have hlast : t.secondOfMinute ≤ 60 := by
    unfold secondOfMinute
    split <;> omega
  omega

/-- The numbers in a text, compared one after the other, are in the order of the times. -/
theorem toSecond_le_iff (ht : t.HasPlainYear) (hu : u.HasPlainYear) : t.toSecond ≤ u.toSecond ↔
    t.date.year.natAbs < u.date.year.natAbs ∨ t.date.year.natAbs = u.date.year.natAbs ∧
      (t.date.month < u.date.month ∨ t.date.month = u.date.month ∧
        (t.date.day < u.date.day ∨ t.date.day = u.date.day ∧
          (t.second / 3600 < u.second / 3600 ∨ t.second / 3600 = u.second / 3600 ∧
            (t.second / 60 % 60 < u.second / 60 % 60 ∨ t.second / 60 % 60 = u.second / 60 % 60 ∧
              t.secondOfMinute ≤ u.secondOfMinute)))) := by
  have hday := fun v : Timestamp => v.date.day_mem.2.trans (daysInMonth_le _ _)
  -- the key counts two seconds for each second of a day, the other one for a leap second behind it
  have hclock : (t.second / 3600 < u.second / 3600 ∨ t.second / 3600 = u.second / 3600 ∧
      (t.second / 60 % 60 < u.second / 60 % 60 ∨ t.second / 60 % 60 = u.second / 60 % 60 ∧
        t.secondOfMinute ≤ u.secondOfMinute)) ↔
      t.second * 2000000000 + t.toSecond.nano ≤ u.second * 2000000000 + u.toSecond.nano := by
    have ht := t.leap
    have hu := u.leap
    rw [toSecond_nano, toSecond_nano]
    unfold secondOfMinute
    split_ifs <;> omega
  rw [hclock]
  have hmonth := t.date.month_mem
  have hmonth' := u.date.month_mem
  have hlow := hday t
  have hlow' := hday u
  have hsecond := t.second_lt
  have hsecond' := u.second_lt
  have hnano := t.toSecond.nano_lt
  have hnano' := u.toSecond.nano_lt
  have hdate : t.toSecond.date = t.date ∧ u.toSecond.date = u.date := ⟨rfl, rfl⟩
  obtain ⟨hfirst, hlast⟩ := ht
  obtain ⟨hfirst', hlast'⟩ := hu
  -- month and day stay below the factors 16 and 32 of the key, so no number reaches into the next
  show (t.date.key * 86400 + (t.second : ℤ)) * 2000000000 + (t.toSecond.nano : ℤ) ≤
    (u.date.key * 86400 + (u.second : ℤ)) * 2000000000 + (u.toSecond.nano : ℤ) ↔ _
  unfold Date.key
  generalize t.toSecond.nano = a at *
  generalize u.toSecond.nano = b at *
  omega

theorem columnText_le_iff (ht : t.HasPlainYear) (hu : u.HasPlainYear) :
    t.columnText ≤ u.columnText ↔ t.toSecond ≤ u.toSecond := by
  have hsep : ∀ {c : Char} {x y : List Char}, c :: x ≤ c :: y ↔ x ≤ y := by
    intro c x y
    rw [cons_le_cons_iff]
    simp
  have hyear : ∀ {v : Timestamp}, v.HasPlainYear → v.date.year.natAbs < 10 ^ 4 := by
    rintro v ⟨hfirst, hlast⟩
    omega
  obtain ⟨hmonth, hday, hhour, hminute, hsecond⟩ := t.parts_lt
  obtain ⟨hmonth', hday', hhour', hminute', hsecond'⟩ := u.parts_lt
  have hend := padded_append_le_iff (w := 2) (by decide) hsecond hsecond' [] []
  rw [List.append_nil, List.append_nil, and_iff_left (le_refl []), ← Nat.le_iff_lt_or_eq] at hend
  rw [String.le_iff_toList_le, toList_columnText ht, toList_columnText hu, toSecond_le_iff ht hu,
    padded_append_le_iff (by decide) (hyear ht) (hyear hu), hsep,
    padded_append_le_iff (by decide) hmonth hmonth', hsep,
    padded_append_le_iff (by decide) hday hday', hsep,
    padded_append_le_iff (by decide) hhour hhour', hsep,
    padded_append_le_iff (by decide) hminute hminute', hsep, hend]

/-! ## Reading a column -/

section Reading

variable {n : ℕ} {s : List Char}

theorem digits_append {least : ℕ} (hs : Shows n s) (hleast : least ≤ s.length)
    (rest : List Char) : digits least s.length (s ++ rest) = some (n, rest) := by
  have hrun : ((s ++ rest).take s.length).takeWhile Char.isDigit = s := by
    rw [List.take_left, List.takeWhile_eq_self_iff]
    exact hs.digit
  unfold digits
  simp only [hrun]
  rw [if_neg (Nat.not_lt_of_le hleast), hs.value, List.drop_left]

/-- A number begins with a digit, so no blank is dropped in front of it. -/
theorem dropBlank_append (hs : Shows n s) (hpos : 0 < s.length) (rest : List Char) :
    ∃ c t, c.isDigit = true ∧ dropBlank (s ++ rest) = c :: t ∧ s ++ rest = c :: t := by
  cases s with
  | nil => cases hpos
  | cons c t =>
    have hdigit := hs.digit c List.mem_cons_self
    have hblank : isBlank c = false := by
      refine isBlank_eq_false_of_isWordChar ?_
      simp [isWordChar, isNameChar, Char.isAlphanum, hdigit]
    exact ⟨c, t ++ rest, hdigit, dropBlank_cons hblank _, rfl⟩

theorem field_padded (hn : n < 10 ^ 2) (rest : List Char) :
    field ((padded 2 n).toList ++ rest) = some (n, rest) := by
  obtain ⟨hshows, hlen⟩ := shows_padded (by decide) hn
  obtain ⟨c, t, -, hdrop, htext⟩ := dropBlank_append hshows (by omega) rest
  rw [field, hdrop, ← htext,
    ← digits_append hshows (show 1 ≤ (padded 2 n).toList.length by omega) rest, hlen]

theorem year_padded (hn : n < 10 ^ 4) (rest : List Char) :
    year ((padded 4 n).toList ++ rest) = some ((n : ℤ), rest) := by
  obtain ⟨hshows, hlen⟩ := shows_padded (by decide) hn
  obtain ⟨c, t, hdigit, hdrop, htext⟩ := dropBlank_append hshows (by omega) rest
  have hread := digits_append hshows (show 1 ≤ (padded 4 n).toList.length by omega) rest
  rw [hlen, htext] at hread
  unfold year
  rw [hdrop]
  split
  · rename_i heq
    rw [(List.cons.inj heq).1] at hdigit
    exact absurd hdigit (by decide)
  · rename_i heq
    rw [(List.cons.inj heq).1] at hdigit
    exact absurd hdigit (by decide)
  · rw [hread]
    rfl

theorem calendar_padded {dash : Piece Unit} (hdash : ∀ s, dash ('-' :: s) = some ((), s))
    {text : List Char} {y : ℤ} {m d : ℕ} (hm : m < 10 ^ 2) (hd : d < 10 ^ 2)
    (hy : ∀ s, year (text ++ '-' :: s) = some (y, '-' :: s)) (rest : List Char) :
    calendar dash (text ++ '-' :: ((padded 2 m).toList ++ '-' ::
      ((padded 2 d).toList ++ rest))) = some (⟨y, m, d⟩, rest) := by
  unfold calendar
  simp only [hy, hdash, field_padded hm, field_padded hd, Option.bind_eq_bind, Option.bind_some]
  rfl

theorem clock_padded {colon : Piece Unit} (hcolon : ∀ s, colon (':' :: s) = some ((), s))
    {h m k : ℕ} (hh : h < 10 ^ 2) (hm : m < 10 ^ 2) (hk : k < 10 ^ 2) (rest : List Char) :
    clock colon ((padded 2 h).toList ++ ':' :: ((padded 2 m).toList ++ ':' ::
      ((padded 2 k).toList ++ rest))) = some (⟨h, m, k, 0⟩, rest) := by
  unfold clock
  simp only [hcolon, field_padded hh, field_padded hm, field_padded hk, Option.bind_eq_bind,
    Option.bind_some]
  rfl

theorem char_cons (c : Char) (s : List Char) : char c (c :: s) = some ((), s) := if_pos rfl

theorem blanks_cons (s : List Char) : blanks (' ' :: s) = some ((), dropBlank s) := rfl

end Reading

/-- The parts of a time are put together again. -/
theorem on?_parts (t : Timestamp) :
    (⟨t.second / 3600, t.second / 60 % 60, t.secondOfMinute, t.nano % 1000000000⟩ : Clock).on?
      ⟨t.date.year, t.date.month, t.date.day⟩ = some t := by
  have hsecond := t.second_lt
  have hlast : t.secondOfMinute ≤ 60 := by
    unfold secondOfMinute
    split <;> omega
  have hnano := t.nano_lt
  rw [Clock.on?, Calendar.date?, t.date.of?_parts, Option.bind_some]
  show Timestamp.of? t.date (t.second / 3600) (t.second / 60 % 60) t.secondOfMinute
    (t.nano % 1000000000) = _
  rw [Timestamp.of?, dif_pos ⟨by omega, by omega, hlast, by omega⟩]
  -- a leap second was written as second 60
  by_cases hleap : 1000000000 ≤ t.nano
  · have hminute := t.leap hleap
    have hk : t.secondOfMinute = 60 := by
      rw [secondOfMinute, if_pos hleap, hminute]
    rw [dif_pos hk, Option.some.injEq, Timestamp.mk.injEq]
    exact ⟨rfl, by omega, by omega⟩
  · have hk : t.secondOfMinute = t.second % 60 := by
      rw [secondOfMinute, if_neg hleap, Nat.add_zero]
    rw [dif_neg (by omega), Option.some.injEq, Timestamp.mk.injEq]
    exact ⟨rfl, by omega, by omega⟩

theorem secondOfMinute_toSecond (t : Timestamp) : t.toSecond.secondOfMinute = t.secondOfMinute := by
  unfold secondOfMinute
  simp only [le_toSecond_nano]
  rfl

theorem on?_eq_toSecond (t : Timestamp) :
    (⟨t.second / 3600, t.second / 60 % 60, t.secondOfMinute, 0⟩ : Clock).on?
      ⟨t.date.year, t.date.month, t.date.day⟩ = some t.toSecond := by
  have hnano : t.toSecond.nano % 1000000000 = 0 := by
    rw [toSecond_nano]
    split <;> rfl
  rw [← on?_parts t.toSecond, hnano, secondOfMinute_toSecond]
  rfl

/-- What a column holds is read as the time cut to the second. -/
theorem readColumn?_columnText (ht : t.HasPlainYear) :
    readColumn? t.columnText = some t.toSecond := by
  obtain ⟨hmonth, hday, hhour, hminute, hsecond⟩ := t.parts_lt
  obtain ⟨hshows, hlen⟩ := shows_padded (by decide) hhour
  have hyear : ((t.date.year.natAbs : ℕ) : ℤ) = t.date.year := Int.natAbs_of_nonneg ht.1
  have hblanks : ∀ rest, blanks (' ' :: ((padded 2 (t.second / 3600)).toList ++ rest)) =
      some ((), (padded 2 (t.second / 3600)).toList ++ rest) := by
    intro rest
    obtain ⟨c, u, -, hdrop, htext⟩ := dropBlank_append hshows (by omega) rest
    rw [blanks_cons, hdrop, htext]
  have hclock := clock_padded (char_cons ':') hhour hminute hsecond []
  rw [List.append_nil] at hclock
  rw [readColumn?, toList_columnText ht, plainFormat,
    calendar_padded (char_cons '-') hmonth hday fun s =>
      year_padded (by obtain ⟨hfirst, hlast⟩ := ht; omega) ('-' :: s)]
  simp only [Option.bind_eq_bind, Option.bind_some, hblanks, hclock, if_true, hyear]
  exact on?_eq_toSecond t

/-- Texts are equal for times in the same second. -/
theorem columnText_inj {t u : Timestamp} (ht : t.HasPlainYear) (hu : u.HasPlainYear) :
    t.columnText = u.columnText ↔ t.toSecond = u.toSecond := by
  constructor
  · intro h
    have hread := readColumn?_columnText ht
    rw [h, readColumn?_columnText hu] at hread
    exact (Option.some.inj hread).symm
  · intro h
    rw [← columnText_toSecond t, h, columnText_toSecond]

end Timestamp

end FactorStudy
