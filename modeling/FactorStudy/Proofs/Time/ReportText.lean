import FactorStudy.Proofs.Time.ColumnText
import FactorStudy.Database.Reports

/-!
# Times in reports

A time stands in a report in full, down to the nanosecond and with whatever sign its year has. It is
read back as it was, from a row of a result (`readIso?_isoText`) and, with the letter for universal
time, from a report (`readReport?_reportText`). In the table of reports the zone is a number instead;
the format that this is read in has room for four digits of a year, so there the year has to be from
0 to 9999 (`internetFormat_zonedText`).
-/

namespace FactorStudy.Timestamp

open Decimal
open Text (isBlank dropBlank)
open Grammar (StopsAt stopsAt_cons takeWhile_append_of_stopsAt dropBlank_cons isDigit_range)

/-! ## A year with its sign -/

theorem digits_length {n : ℕ} {s rest : List Char} (hs : Shows n s) (hpos : 0 < s.length)
    (hrest : StopsAt Char.isDigit rest) :
    digits 1 (s ++ rest).length (s ++ rest) = some (n, rest) := by
  have hrun : ((s ++ rest).take (s ++ rest).length).takeWhile Char.isDigit = s := by
    rw [List.take_length, takeWhile_append_of_stopsAt hs.digit hrest]
  unfold digits
  simp only [hrun]
  rw [if_neg (Nat.not_lt_of_le hpos), hs.value, List.drop_left]

theorem year_minus (s : List Char) :
    year ('-' :: s) = (digits 1 s.length s).map fun (n, rest) => (-1 * (n : ℤ), rest) := by
  rw [year, dropBlank_cons (by decide)]
  rfl

theorem year_plus (s : List Char) :
    year ('+' :: s) = (digits 1 s.length s).map fun (n, rest) => (1 * (n : ℤ), rest) := by
  rw [year, dropBlank_cons (by decide)]
  rfl

/-- A year is read up to the dash behind it, with or without a sign in front. -/
theorem year_yearText (y : ℤ) (s : List Char) :
    year ((yearText y).toList ++ '-' :: s) = some (y, '-' :: s) := by
  have hrest : StopsAt Char.isDigit ('-' :: s) := stopsAt_cons (by decide)
  obtain ⟨hshows, hpos⟩ := showsNumber_padded 4 y.natAbs
  have hminus : "-".toList = ['-'] := rfl
  have hplus : "+".toList = ['+'] := rfl
  by_cases hplain : 0 ≤ y ∧ y ≤ 9999
  · rw [yearText, if_pos hplain, year_padded (by omega), Int.natAbs_of_nonneg hplain.1]
  · rw [yearText, if_neg hplain, String.toList_append, List.append_assoc]
    have hread := digits_length hshows hpos hrest
    by_cases hneg : y < 0
    · rw [if_pos hneg, hminus, List.singleton_append, year_minus, hread, Option.map_some]
      simp only [show (-1 : ℤ) * (y.natAbs : ℤ) = y by omega]
    · rw [if_neg hneg, hplus, List.singleton_append, year_plus, hread, Option.map_some]
      simp only [show (1 : ℤ) * (y.natAbs : ℤ) = y by omega]

/-! ## A fraction of a second -/

/-- The text goes on neither with digits nor with a point. -/
def EndsSecond (rest : List Char) : Prop := StopsAt (fun c => c.isDigit || c == '.') rest

theorem EndsSecond.digit {rest : List Char} (h : EndsSecond rest) : StopsAt Char.isDigit rest :=
  h.mono fun c hc => by rw [hc]; rfl

/-- Up to nine digits behind a point are so many places of a second. -/
theorem fraction_padded {w n : ℕ} (hw : 0 < w) (hmax : w ≤ 9) (hn : n < 10 ^ w) {rest : List Char}
    (hrest : StopsAt Char.isDigit rest) :
    fraction ('.' :: ((padded w n).toList ++ rest)) = some (n * 10 ^ (9 - w), rest) := by
  obtain ⟨hshows, hlen⟩ := shows_padded hw hn
  have hne : (padded w n).toList ≠ [] := List.length_pos_iff.mp (by omega)
  have hkept : (padded w n).toList.take 9 = (padded w n).toList :=
    List.take_of_length_le (by omega)
  unfold fraction
  simp only [takeWhile_append_of_stopsAt hshows.digit hrest, if_neg hne, hkept, hshows.value, hlen,
    List.drop_left' hlen]
  rfl

/-- As many digits are written as are needed in groups of three. -/
theorem fraction_fractionText (t : Timestamp) (rest : List Char) (hrest : EndsSecond rest) :
    fraction (t.fractionText.toList ++ rest) = some (t.nano % 1000000000, rest) := by
  have htext : ∀ w n, ("." ++ padded w n).toList ++ rest = '.' :: ((padded w n).toList ++ rest) := by
    intro w n
    rw [String.toList_append]
    rfl
  generalize hnano : t.nano % 1000000000 = nano
  have hlt : nano < 1000000000 := by omega
  rw [fractionText, hnano]
  -- no digits, three, six or nine
  by_cases hzero : nano = 0
  · rw [if_pos hzero, hzero]
    show fraction rest = _
    unfold fraction
    split
    · exact absurd (hrest '.' rfl) (by decide)
    · rfl
  by_cases hmilli : nano % 1000000 = 0
  · rw [if_neg hzero, if_pos hmilli, htext, fraction_padded (by decide) (by decide) (by omega)
      hrest.digit, show nano / 1000000 * 10 ^ (9 - 3) = nano by omega]
  by_cases hmicro : nano % 1000 = 0
  · rw [if_neg hzero, if_neg hmilli, if_pos hmicro, htext, fraction_padded (by decide) (by decide)
      (by omega) hrest.digit, show nano / 1000 * 10 ^ (9 - 6) = nano by omega]
  · rw [if_neg hzero, if_neg hmilli, if_neg hmicro, htext, fraction_padded (by decide) (by decide)
      (by omega) hrest.digit, show nano * 10 ^ (9 - 9) = nano by omega]

/-! ## The whole text -/

theorem toList_isoText (t : Timestamp) : t.isoText.toList =
    (yearText t.date.year).toList ++ '-' :: ((padded 2 t.date.month).toList ++ '-' ::
      ((padded 2 t.date.day).toList ++ 'T' :: ((padded 2 (t.second / 3600)).toList ++ ':' ::
        ((padded 2 (t.second / 60 % 60)).toList ++ ':' ::
          ((padded 2 t.secondOfMinute).toList ++ t.fractionText.toList))))) := by
  have hdash : "-".toList = ['-'] := rfl
  have hletter : "T".toList = ['T'] := rfl
  have hcolon : ":".toList = [':'] := rfl
  unfold isoText textWith dateText clockText secondOfMinute
  simp only [String.toList_append, List.append_assoc, hdash, hletter, hcolon, List.cons_append,
    List.nil_append]

theorem spacedChar_cons {c : Char} (hc : isBlank c = false) (s : List Char) :
    spacedChar c (c :: s) = some ((), s) := by
  rw [spacedChar, dropBlank_cons hc, char_cons]

/-- The date in front of a text. -/
theorem calendar_isoText (t : Timestamp) (rest : List Char) :
    calendar (spacedChar '-') ((yearText t.date.year).toList ++ '-' ::
      ((padded 2 t.date.month).toList ++ '-' :: ((padded 2 t.date.day).toList ++ rest))) =
        some (⟨t.date.year, t.date.month, t.date.day⟩, rest) := by
  obtain ⟨hmonth, hday, -⟩ := t.parts_lt
  exact calendar_padded (spacedChar_cons (by decide)) hmonth hday (year_yearText t.date.year) rest

/-- The time of day in front of a text. -/
theorem clock_isoText (t : Timestamp) (rest : List Char) :
    clock (spacedChar ':') ((padded 2 (t.second / 3600)).toList ++ ':' ::
      ((padded 2 (t.second / 60 % 60)).toList ++ ':' ::
        ((padded 2 t.secondOfMinute).toList ++ rest))) =
          some (⟨t.second / 3600, t.second / 60 % 60, t.secondOfMinute, 0⟩, rest) := by
  obtain ⟨-, -, hhour, hminute, hsecond⟩ := t.parts_lt
  exact clock_padded (spacedChar_cons (by decide)) hhour hminute hsecond rest

/-- A time in a row of a result is read back. -/
theorem readIso?_isoText (t : Timestamp) : readIso? t.isoText = some t := by
  have hfraction := t.fraction_fractionText [] (fun _ hc => nomatch hc)
  rw [List.append_nil] at hfraction
  have hletter : ∀ s, spacedChar 'T' ('T' :: s) = some ((), s) := spacedChar_cons (by decide)
  unfold readIso?
  rw [toList_isoText, calendar_isoText]
  simp only [Option.bind_eq_bind, Option.bind_some, hletter, clock_isoText, hfraction]
  exact t.on?_parts

/-- A time in a report is read back. -/
theorem readReport?_reportText (t : Timestamp) : readReport? t.reportText = some t := by
  have hfraction := t.fraction_fractionText ['Z'] (stopsAt_cons (by decide))
  have htext : t.reportText.toList = t.isoText.toList ++ ['Z'] := String.toList_append
  have hletter : ∀ s, dateEnd ('T' :: s) = some ((), s) := fun _ => rfl
  have hzone : reportZone (dropBlank ['Z']) = some (0, []) := by decide
  unfold readReport?
  rw [htext, toList_isoText]
  simp only [List.append_assoc, List.cons_append]
  rw [calendar_isoText]
  simp only [Option.bind_eq_bind, Option.bind_some, hletter, clock_isoText, hfraction, hzone]
  show (Clock.on? _ _).bind _ = _
  rw [on?_parts, Option.bind_some, shiftClock?_zero]

/-- The zone of universal time, as a number. -/
def universal : List Char := ['+', '0', '0', ':', '0', '0']

/-- A time in the table of reports is read back when its year has four digits. -/
theorem internetFormat_zonedText {t : Timestamp} (ht : t.HasPlainYear) :
    internetFormat t.zonedText.toList = some t := by
  obtain ⟨hfirst, hlast⟩ := ht
  obtain ⟨hmonth, hday, hhour, hminute, hsecond⟩ := t.parts_lt
  have htwo : ∀ {n}, n < 10 ^ 2 → ∀ rest, digits 2 2 ((padded 2 n).toList ++ rest) =
      some (n, rest) := by
    intro n hn rest
    obtain ⟨hshows, hlen⟩ := shows_padded (by decide) hn
    have hread := digits_append hshows (show 2 ≤ (padded 2 n).toList.length by omega) rest
    rwa [hlen] at hread
  have hyear : ∀ rest, digits 4 4 ((padded 4 t.date.year.natAbs).toList ++ rest) =
      some (t.date.year.natAbs, rest) := by
    intro rest
    obtain ⟨hshows, hlen⟩ := shows_padded (w := 4) (n := t.date.year.natAbs) (by decide) (by omega)
    have hread := digits_append hshows (show 4 ≤ (padded 4 _).toList.length by omega) rest
    rwa [hlen] at hread
  have hplain : yearText t.date.year = padded 4 t.date.year.natAbs := if_pos ⟨hfirst, hlast⟩
  have hfraction := t.fraction_fractionText universal (stopsAt_cons (by decide))
  have htext : t.zonedText.toList = t.isoText.toList ++ universal := String.toList_append
  have hletter : ∀ s, dateEnd ('T' :: s) = some ((), s) := fun _ => rfl
  have hzone : zone (char ':') universal = some (0, []) := by decide
  rw [htext, toList_isoText, hplain]
  simp only [List.append_assoc, List.cons_append]
  unfold internetFormat
  -- one number or sign after the other
  refine Option.bind_eq_some_iff.mpr ⟨_, hyear _, ?_⟩
  refine Option.bind_eq_some_iff.mpr ⟨_, char_cons '-' _, ?_⟩
  refine Option.bind_eq_some_iff.mpr ⟨_, htwo hmonth _, ?_⟩
  refine Option.bind_eq_some_iff.mpr ⟨_, char_cons '-' _, ?_⟩
  refine Option.bind_eq_some_iff.mpr ⟨_, htwo hday _, ?_⟩
  refine Option.bind_eq_some_iff.mpr ⟨_, hletter _, ?_⟩
  refine Option.bind_eq_some_iff.mpr ⟨_, htwo hhour _, ?_⟩
  refine Option.bind_eq_some_iff.mpr ⟨_, char_cons ':' _, ?_⟩
  refine Option.bind_eq_some_iff.mpr ⟨_, htwo hminute _, ?_⟩
  refine Option.bind_eq_some_iff.mpr ⟨_, char_cons ':' _, ?_⟩
  refine Option.bind_eq_some_iff.mpr ⟨_, htwo hsecond _, ?_⟩
  refine Option.bind_eq_some_iff.mpr ⟨_, hfraction, ?_⟩
  refine Option.bind_eq_some_iff.mpr ⟨_, hzone, ?_⟩
  rw [Int.natAbs_of_nonneg hfirst]
  show (Clock.on? _ _).bind _ = _
  rw [on?_parts, Option.bind_some, shiftClock?_zero]

end FactorStudy.Timestamp
