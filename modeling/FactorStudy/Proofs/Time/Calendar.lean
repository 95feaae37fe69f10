import FactorStudy.Time.Timestamp

/-!
# The count of days

A date is found again from its count of days (`ofDayNumber?_dayNumber`). Years are taken to begin in
March, so that the leap day is the last day of its year; a cycle of 400 years is then made of
centuries, of groups of four years and of years, and only the last of each can be a day longer or
shorter.
-/

namespace FactorStudy

namespace Date

/-- The year of a date when years begin in March. -/
def marchYear (d : Date) : Int := if d.month ≤ 2 then d.year - 1 else d.year

/-- The months since March. -/
def marchMonth (d : Date) : Nat := if d.month ≤ 2 then d.month + 9 else d.month - 3

/-- The days since the first of March. -/
def dayOfYear (d : Date) : Nat := (153 * d.marchMonth + 2) / 5 + (d.day - 1)

/-- The days before a month are on a straight line, and a month ends before the next one begins. -/
theorem day_le_next (d : Date) : d.marchMonth < 12 ∧
    d.day ≤ (153 * (d.marchMonth + 1) + 2) / 5 - (153 * d.marchMonth + 2) / 5 := by
  have hmonth := d.month_mem
  have hday := d.day_mem.2
  have hcases : d.month = 1 ∨ d.month = 2 ∨ d.month = 3 ∨ d.month = 4 ∨ d.month = 5 ∨ d.month = 6 ∨
      d.month = 7 ∨ d.month = 8 ∨ d.month = 9 ∨ d.month = 10 ∨ d.month = 11 ∨ d.month = 12 := by
    omega
  unfold marchMonth
  unfold daysInMonth at hday
  rcases hcases with h | h | h | h | h | h | h | h | h | h | h | h <;> rw [h] at hday ⊢
  -- February, by its year
  case inr.inl =>
    have hday : d.day ≤ if isLeapYear d.year then 29 else 28 := hday
    have hbound : d.day ≤ 30 := by split at hday <;> omega
    exact ⟨by decide, hbound⟩
  all_goals exact ⟨by decide, hday⟩

/-- A leap year ends with a leap day, and any other year a day before. -/
theorem isLeapYear_of_dayOfYear {d : Date} (h : 365 ≤ d.dayOfYear) :
    d.dayOfYear = 365 ∧ isLeapYear (d.marchYear + 1) = true := by
  obtain ⟨hmonth, hday⟩ := d.day_le_next
  -- years that begin in March end with February, so this is its last day
  have hlast : d.marchMonth = 11 := by
    unfold dayOfYear at h
    omega
  have hfeb : d.month = 2 := by
    have := d.month_mem
    unfold marchMonth at hlast
    split at hlast <;> omega
  have hdays := d.day_mem.2
  have hyear : d.marchYear + 1 = d.year := by
    rw [marchYear, if_pos (by omega)]
    omega
  rw [hyear]
  rw [hfeb, daysInMonth] at hdays
  unfold dayOfYear at h ⊢
  rw [hlast] at h ⊢
  split at hdays
  · rename_i hleap
    exact ⟨by omega, hleap⟩
  · omega

/-- The year within a cycle: by its century, its group of four and its place in the group. -/
theorem yearOfCycle_eq {a b c d n : Nat} (ha : a < 4) (hb : b < 25) (hc : c < 4) (hd : d < 366)
    (hleap : d = 365 → c = 3 ∧ (b = 24 → a = 3))
    (hn : n = 36524 * a + 1461 * b + 365 * c + d) :
    (n - n / 1460 + n / 36524 - n / 146096) / 365 = 100 * a + 4 * b + c := by
  have hcycle : n / 146096 = if d = 365 ∧ b = 24 then 1 else 0 := by
    split <;> omega
  have hcentury : n / 36524 = a + n / 146096 := by
    rw [hcycle]
    split <;> omega
  have hgroup : n / 1460 = 25 * a + b + (24 * a + b + 365 * c + d) / 1460 := by omega
  rw [hcentury, hgroup]
  omega

/-- The month within a year is found from the straight line. -/
theorem month_eq {m d : Nat} (h : d < (153 * (m + 1) + 2) / 5 - (153 * m + 2) / 5) :
    (5 * ((153 * m + 2) / 5 + d) + 2) / 153 = m := by
  omega

theorem of?_parts (d : Date) : of? d.year d.month d.day = some d :=
  dif_pos ⟨d.year_mem, d.month_mem, d.day_mem⟩

/-- A date is found from its count of days. -/
theorem ofDayNumber?_dayNumber (d : Date) : ofDayNumber? d.dayNumber = some d := by
  obtain ⟨hmonth, hday⟩ := d.day_le_next
  have hpos := d.day_mem.1
  -- a year is counted by cycles of 400, centuries, spans of four and years
  obtain ⟨cycle, a, b, c, ha, hb, hc, hyear⟩ : ∃ (cycle : Int) (a b c : Nat), a < 4 ∧ b < 25 ∧
      c < 4 ∧ d.marchYear = 400 * cycle + (100 * a + 4 * b + c : Nat) :=
    ⟨d.marchYear / 400, (d.marchYear % 400 / 100).toNat, (d.marchYear % 100 / 4).toNat,
      (d.marchYear % 4).toNat, by omega, by omega, by omega, by omega⟩
  have hdays : d.dayOfYear < 366 := by
    refine Nat.lt_of_not_le fun h => ?_
    have := (isLeapYear_of_dayOfYear (show 365 ≤ d.dayOfYear by omega)).1
    omega
  -- the leap day of a cycle, a century and a span is always its last
  have hleap : d.dayOfYear = 365 → c = 3 ∧ (b = 24 → a = 3) := by
    intro h
    have hleap := (isLeapYear_of_dayOfYear (Nat.le_of_eq h.symm)).2
    simp only [isLeapYear, hyear, Bool.and_eq_true, Bool.or_eq_true, beq_iff_eq, bne_iff_ne] at hleap
    omega
  have hcount : d.dayNumber + 719468 =
      146097 * cycle + (36524 * a + 1461 * b + 365 * c + d.dayOfYear : Nat) := by
    have hm : ((d.marchMonth : Nat) : Int) =
        if d.month ≤ 2 then (d.month : Int) + 9 else (d.month : Int) - 3 := by
      unfold marchMonth
      split <;> omega
    unfold dayNumber
    simp only [Int.fdiv_eq_ediv_of_nonneg _ (show (0 : Int) ≤ 4 by decide),
      Int.fdiv_eq_ediv_of_nonneg _ (show (0 : Int) ≤ 100 by decide),
      Int.fdiv_eq_ediv_of_nonneg _ (show (0 : Int) ≤ 400 by decide)]
    rw [← hm, show (if d.month ≤ 2 then d.year - 1 else d.year) = d.marchYear from rfl, hyear]
    unfold dayOfYear
    omega
  generalize hn : 36524 * a + 1461 * b + 365 * c + d.dayOfYear = n at hcount
  have hyears := yearOfCycle_eq ha hb hc hdays hleap hn.symm
  -- the divisions of the count find these parts again, and then the month and the day
  have hdiv : (d.dayNumber + 719468).fdiv 146097 = cycle := by
    rw [Int.fdiv_eq_ediv_of_nonneg _ (by decide), hcount]
    omega
  have hmod : ((d.dayNumber + 719468).fmod 146097).toNat = n := by
    rw [Int.fmod_eq_emod_of_nonneg _ (by decide), hcount]
    omega
  have hinYear : n - (365 * (100 * a + 4 * b + c) + (100 * a + 4 * b + c) / 4 -
      (100 * a + 4 * b + c) / 100) = d.dayOfYear := by
    omega
  have hm : (5 * d.dayOfYear + 2) / 153 = d.marchMonth := month_eq (by omega)
  have hd : d.dayOfYear - (153 * d.marchMonth + 2) / 5 + 1 = d.day := by
    unfold dayOfYear
    omega
  have hmonthOf : (if d.marchMonth < 10 then d.marchMonth + 3 else d.marchMonth - 9) = d.month := by
    have := d.month_mem
    unfold marchMonth
    split <;> split <;> omega
  have hyearOf : cycle * 400 + ((100 * a + 4 * b + c : Nat) : Int) +
      (if d.month ≤ 2 then 1 else 0) = d.year := by
    unfold marchYear at hyear
    split <;> split at hyear <;> omega
  unfold ofDayNumber?
  simp only [hdiv, hmod, hyears, hinYear, hm, hd, hmonthOf, hyearOf]
  exact of?_parts d

theorem addDays?_zero (d : Date) : d.addDays? 0 = some d := by
  rw [addDays?, Int.add_zero]
  exact d.ofDayNumber?_dayNumber

end Date

/-- In universal time, the clock stays as it is. -/
theorem Timestamp.shiftClock?_zero (t : Timestamp) : t.shiftClock? 0 = some t := by
  have hsecond := t.second_lt
  have hdays : ((t.second : Int) - 0).fdiv 86400 = 0 := by
    rw [Int.fdiv_eq_ediv_of_nonneg _ (by decide)]
    omega
  have hclock : (((t.second : Int) - 0).fmod 86400).toNat = t.second := by
    rw [Int.fmod_eq_emod_of_nonneg _ (by decide)]
    omega
  unfold shiftClock?
  simp only [hdays, hclock, t.date.addDays?_zero, Option.bind_some]
  exact dif_pos ⟨t.second_lt, t.leap⟩

end FactorStudy
