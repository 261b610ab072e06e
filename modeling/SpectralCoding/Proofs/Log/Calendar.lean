import Mathlib.Data.Nat.Init
import Mathlib.Logic.Function.Iterate
import Mathlib.Order.Basic
import SpectralCoding.Log.Date

/-!
# The calendar

The day number of a date counts the days of the calendar: it goes up by one from a date to the next,
so dates are in the order of their day numbers, and every whole number is that of one date.

* `Date.next` : the date of the next day.
* `Date.Precedes` : dates by year, month and day.
* `Date.dayNumber_next` : day numbers count days.
* `Date.precedes_iff` : the order of dates is that of their day numbers.
* `Date.dayNumber_ofDayNumber` : every whole number is the number of a day.
* `Date.IsDaysBefore`, `Date.isDaysBefore_iff` : a date so many days before another; it is found by
  day numbers.
* `Day.precedes_calendar`, `Day.back?_calendar` : **days are in their order and counted back.**
-/

namespace SpectralCoding

namespace Date

/-- The date of the next day. -/
def next (d : Date) : Date :=
  if d.day < daysOfMonth d.year d.month then { d with day := d.day + 1 }
  else if d.month < 12 then ⟨d.year, d.month + 1, 1⟩
  else ⟨d.year + 1, 1, 1⟩

/-- The date comes before the other in the calendar. -/
def Precedes (d e : Date) : Prop :=
  d.year < e.year ∨ d.year = e.year ∧ (d.month < e.month ∨ d.month = e.month ∧ d.day < e.day)

instance (d e : Date) : Decidable (d.Precedes e) := inferInstanceAs (Decidable (_ ∨ _))

variable {d e : Date} {year : Int} {month : Nat}

theorem isValid_iff :
    d.isValid = true ↔
      1 ≤ d.month ∧ d.month ≤ 12 ∧ 1 ≤ d.day ∧ d.day ≤ daysOfMonth d.year d.month := by
  simp [isValid, and_assoc]

theorem daysOfMonth_mem (year : Int) (month : Nat) :
    1 ≤ daysOfMonth year month ∧ daysOfMonth year month ≤ 31 := by
  unfold daysOfMonth
  split
  · split <;> decide
  all_goals decide

/-! ### Months -/

/-- The day number of the first of a month. -/
def firstOf (year : Int) (month : Nat) : Int := dayNumber ⟨year, month, 1⟩

theorem dayNumber_eq (h : 1 ≤ d.day) : d.dayNumber = firstOf d.year d.month + d.day - 1 := by
  simp only [firstOf, dayNumber]
  omega

/-- A leap year is one day longer from the first of March to the next. -/
theorem leapDays (year : Int) :
    year / 4 - year / 100 + year / 400 =
      (year - 1) / 4 - (year - 1) / 100 + (year - 1) / 400 + if isLeapYear year then 1 else 0 := by
  simp only [isLeapYear, Bool.and_eq_true, Bool.or_eq_true, beq_iff_eq, bne_iff_ne]
  split <;> omega

theorem firstOf_succ (year : Int) (hleast : 1 ≤ month) (hmost : month < 12) :
    firstOf year (month + 1) = firstOf year month + daysOfMonth year month := by
  have hleap := leapDays year
  obtain rfl | rfl | rfl | rfl | rfl | rfl | rfl | rfl | rfl | rfl | rfl :
      month = 1 ∨ month = 2 ∨ month = 3 ∨ month = 4 ∨ month = 5 ∨ month = 6 ∨ month = 7 ∨
        month = 8 ∨ month = 9 ∨ month = 10 ∨ month = 11 := by omega
  -- from March on the first of a month lies by the same number of days behind the first of March
  all_goals simp only [firstOf, dayNumber, daysBeforeMonth, daysOfMonth]
  case inr.inl =>
    cases hyear : isLeapYear year <;>
      simp only [hyear, Nat.reduceAdd, Nat.reduceLeDiff, reduceIte, Bool.false_eq_true] at hleap ⊢ <;>
      omega
  all_goals omega

theorem firstOf_newYear (year : Int) : firstOf (year + 1) 1 = firstOf year 12 + 31 := by
  simp only [firstOf, dayNumber, daysBeforeMonth]
  omega

theorem firstOf_mono (year : Int) {later : Nat} (hleast : 1 ≤ month) (hle : month ≤ later)
    (hmost : later ≤ 12) : firstOf year month ≤ firstOf year later := by
  induction later, hle using Nat.le_induction with
  | base => exact Int.le_refl _
  | succ later hle ih =>
    have hnext := firstOf_succ year (Nat.le_trans hleast hle) hmost
    have hbefore := ih (Nat.le_of_succ_le hmost)
    omega

/-- All days of a month come before those of the next one. -/
theorem firstOf_lt (year : Int) {later : Nat} (hleast : 1 ≤ month) (hlt : month < later)
    (hmost : later ≤ 12) :
    firstOf year month + daysOfMonth year month ≤ firstOf year later := by
  rw [← firstOf_succ year hleast (Nat.lt_of_lt_of_le hlt hmost)]
  exact firstOf_mono year (Nat.le_add_left 1 month) hlt hmost

theorem newYear_mono {later : Int} (h : year ≤ later) : firstOf year 1 ≤ firstOf later 1 := by
  obtain rfl | hlt := Int.le_iff_eq_or_lt.1 h
  · exact Int.le_refl _
  · simp only [firstOf, dayNumber]
    omega

/-! ### One day after the other -/

theorem dayNumber_lt_newYear (h : d.isValid = true) : d.dayNumber < firstOf (d.year + 1) 1 := by
  obtain ⟨hleast, hmost, hday, hlast⟩ := isValid_iff.1 h
  have hmonth := firstOf_mono d.year hleast hmost (Nat.le_refl 12)
  have hyear := firstOf_newYear d.year
  have hnumber := dayNumber_eq hday
  obtain hlt | heq := Nat.lt_or_eq_of_le hmost
  · have hnext := firstOf_lt d.year hleast hlt (Nat.le_refl 12)
    omega
  · rw [heq] at hlast hnumber
    have hdays : daysOfMonth d.year 12 = 31 := rfl
    omega

theorem newYear_le_dayNumber (h : d.isValid = true) : firstOf d.year 1 ≤ d.dayNumber := by
  obtain ⟨hleast, hmost, hday, -⟩ := isValid_iff.1 h
  have hmonth := firstOf_mono d.year (Nat.le_refl 1) hleast hmost
  have hnumber := dayNumber_eq hday
  omega

theorem dayNumber_lt (hd : d.isValid = true) (he : e.isValid = true) (h : d.Precedes e) :
    d.dayNumber < e.dayNumber := by
  obtain hyear | ⟨hyear, hmonth | ⟨hmonth, hday⟩⟩ := h
  · exact Int.lt_of_lt_of_le (dayNumber_lt_newYear hd)
      (Int.le_trans (newYear_mono hyear) (newYear_le_dayNumber he))
  · obtain ⟨hleast, -, hday, hlast⟩ := isValid_iff.1 hd
    obtain ⟨-, hmost, hday', -⟩ := isValid_iff.1 he
    have hnext := firstOf_lt d.year hleast hmonth hmost
    rw [dayNumber_eq hday, dayNumber_eq hday', ← hyear]
    omega
  · obtain ⟨-, -, hleast, -⟩ := isValid_iff.1 hd
    obtain ⟨-, -, hleast', -⟩ := isValid_iff.1 he
    rw [dayNumber_eq hleast, dayNumber_eq hleast', hyear, hmonth]
    omega

/-- Of two dates one comes first, unless they are the same. -/
theorem precedes_or_eq_or_precedes (d e : Date) : d.Precedes e ∨ d = e ∨ e.Precedes d := by
  obtain ⟨dyear, dmonth, dday⟩ := d
  obtain ⟨eyear, emonth, eday⟩ := e
  simp only [Precedes, Date.mk.injEq]
  omega

/-- **Dates are in the order of their day numbers.** -/
theorem precedes_iff (hd : d.isValid = true) (he : e.isValid = true) :
    d.Precedes e ↔ d.dayNumber < e.dayNumber := by
  refine ⟨dayNumber_lt hd he, fun h => ?_⟩
  obtain hlt | rfl | hlt := precedes_or_eq_or_precedes d e
  · exact hlt
  · exact absurd h (Int.lt_irrefl _)
  · exact absurd (dayNumber_lt he hd hlt) (Int.not_lt.2 (Int.le_of_lt h))

theorem dayNumber_inj (hd : d.isValid = true) (he : e.isValid = true)
    (h : d.dayNumber = e.dayNumber) : d = e := by
  obtain hlt | heq | hlt := precedes_or_eq_or_precedes d e
  · exact absurd (dayNumber_lt hd he hlt) (h ▸ Int.lt_irrefl _)
  · exact heq
  · exact absurd (dayNumber_lt he hd hlt) (h ▸ Int.lt_irrefl _)

theorem isValid_next (h : d.isValid = true) : d.next.isValid = true := by
  obtain ⟨hleast, hmost, hday, hlast⟩ := isValid_iff.1 h
  rw [isValid_iff, next]
  split
  · exact ⟨hleast, hmost, Nat.le_add_left 1 d.day, ‹_›⟩
  · split
    · exact ⟨Nat.le_add_left 1 d.month, ‹_›, Nat.le_refl 1, (daysOfMonth_mem ..).1⟩
    · exact ⟨Nat.le_refl 1, Nat.le_add_left 1 11, Nat.le_refl 1, (daysOfMonth_mem ..).1⟩

/-- **The day number of the next day is one more.** -/
theorem dayNumber_next (h : d.isValid = true) : d.next.dayNumber = d.dayNumber + 1 := by
  obtain ⟨year, month, day⟩ := d
  obtain ⟨hleast, hmost, hday, hlast⟩ := isValid_iff.1 h
  rw [dayNumber_eq hday, next]
  dsimp only at *
  split
  · rw [dayNumber_eq (Nat.le_add_left 1 day)]
    dsimp only
    omega
  · split
    · show firstOf year (month + 1) = _
      rw [firstOf_succ year hleast ‹_›]
      omega
    · obtain rfl : month = 12 := by omega
      have hdays : daysOfMonth year 12 = 31 := rfl
      show firstOf (year + 1) 1 = _
      rw [firstOf_newYear]
      omega

theorem isValid_iterate (h : d.isValid = true) (n : Nat) : (next^[n] d).isValid = true := by
  induction n with
  | zero => exact h
  | succ n ih =>
    rw [Function.iterate_succ_apply']
    exact isValid_next ih

theorem dayNumber_iterate (h : d.isValid = true) (n : Nat) :
    (next^[n] d).dayNumber = d.dayNumber + n := by
  induction n with
  | zero => exact (Int.add_zero _).symm
  | succ n ih =>
    rw [Function.iterate_succ_apply', dayNumber_next (isValid_iterate h n), ih]
    omega

/-! ### Days before and after -/

/-- The date is `days` days before the other, or after it for a negative number. -/
def IsDaysBefore (days : Int) (d e : Date) : Prop :=
  next^[days.toNat] d = next^[(-days).toNat] e

instance (days : Int) (d e : Date) : Decidable (IsDaysBefore days d e) :=
  inferInstanceAs (Decidable (_ = _))

theorem isDaysBefore_iff (hd : d.isValid = true) (he : e.isValid = true) {days : Int} :
    IsDaysBefore days d e ↔ d.dayNumber = e.dayNumber - days := by
  constructor
  · intro h
    have hnumber := congrArg dayNumber h
    rw [dayNumber_iterate hd, dayNumber_iterate he] at hnumber
    omega
  · intro h
    refine dayNumber_inj (isValid_iterate hd _) (isValid_iterate he _) ?_
    rw [dayNumber_iterate hd, dayNumber_iterate he]
    omega

/-! ### Dates of day numbers -/

/-- The day lies in the year that is found for it. -/
theorem yearOfDay_spec (n : Int) :
    firstOfMarch (yearOfDay n) ≤ n ∧ n < firstOfMarch (yearOfDay n + 1) := by
  unfold yearOfDay
  dsimp only
  split
  · refine ⟨‹_›, ?_⟩
    simp only [firstOfMarch]
    omega
  · split
    · exact ⟨‹_›, by omega⟩
    · refine ⟨?_, by rw [Int.sub_add_cancel]; omega⟩
      simp only [firstOfMarch]
      omega

/-- From one first of March to the next there is a leap day if the later year has one. -/
theorem firstOfMarch_succ (year : Int) :
    firstOfMarch (year + 1) = firstOfMarch year + 365 + if isLeapYear (year + 1) then 1 else 0 := by
  have hleap := leapDays (year + 1)
  rw [Int.add_sub_cancel] at hleap
  simp only [firstOfMarch]
  omega

/-- The months of a year that begins with March follow each other. -/
theorem daysBeforeMonth_spec (day : Nat) :
    daysBeforeMonth ((5 * day + 2) / 153) ≤ day ∧
      day < daysBeforeMonth ((5 * day + 2) / 153 + 1) := by
  simp only [daysBeforeMonth]
  omega

/-- Every whole number is the number of a day. -/
theorem dayNumber_ofDayNumber (n : Int) : (ofDayNumber n).dayNumber = n := by
  obtain ⟨hleast, hmost⟩ := yearOfDay_spec n
  rw [firstOfMarch_succ] at hmost
  obtain ⟨hmonth, -⟩ := daysBeforeMonth_spec (n - firstOfMarch (yearOfDay n)).toNat
  unfold ofDayNumber
  generalize yearOfDay n = year at *
  dsimp only
  generalize hday : (n - firstOfMarch year).toNat = day at *
  have hlast : (5 * day + 2) / 153 ≤ 11 := by
    split at hmost <;> omega
  generalize (5 * day + 2) / 153 = month at *
  have hback : ((if month < 10 then month + 3 else month - 9) + 9) % 12 = month := by
    split <;> omega
  have hyear : (if (if month < 10 then month + 3 else month - 9) ≤ 2 then
      (if month < 10 then year else year + 1) - 1
      else if month < 10 then year else year + 1) = year := by
    split <;> split <;> omega
  simp only [dayNumber, hback, hyear]
  rw [firstOfMarch] at hday hleast
  omega

theorem isValid_ofDayNumber (n : Int) : (ofDayNumber n).isValid = true := by
  obtain ⟨hleast, hmost⟩ := yearOfDay_spec n
  rw [firstOfMarch_succ] at hmost
  obtain ⟨-, hmonth⟩ := daysBeforeMonth_spec (n - firstOfMarch (yearOfDay n)).toNat
  rw [isValid_iff]
  unfold ofDayNumber
  generalize yearOfDay n = year at *
  dsimp only
  generalize hday : (n - firstOfMarch year).toNat = day at *
  have hlast : (5 * day + 2) / 153 ≤ 11 := by
    split at hmost <;> omega
  generalize (5 * day + 2) / 153 = month at *
  refine ⟨by split <;> omega, by split <;> omega, Nat.le_add_left 1 _, ?_⟩
  obtain rfl | hlt := Nat.eq_or_lt_of_le hlast
  · -- February is the last month, and as long as the year leaves it
    have hfebruary : daysOfMonth (year + 1) 2 = 28 + if isLeapYear (year + 1) then 1 else 0 := by
      simp only [daysOfMonth]
      split <;> rfl
    simp only [daysBeforeMonth, Nat.reduceLT, reduceIte, Nat.reduceSub, hfebruary]
    split at hmost <;> split <;> first | contradiction | omega
  · obtain rfl | rfl | rfl | rfl | rfl | rfl | rfl | rfl | rfl | rfl | rfl :
        month = 0 ∨ month = 1 ∨ month = 2 ∨ month = 3 ∨ month = 4 ∨ month = 5 ∨ month = 6 ∨
          month = 7 ∨ month = 8 ∨ month = 9 ∨ month = 10 := by omega
    all_goals
      simp only [daysBeforeMonth, daysOfMonth, Nat.reduceLT, Nat.reduceAdd, reduceIte] at *
      omega

/-- The date is one that is reckoned with. -/
def IsReckoned (d : Date) : Prop := earliest.year ≤ d.year ∧ d.year ≤ latest.year

instance (d : Date) : Decidable (IsReckoned d) := inferInstanceAs (Decidable (_ ∧ _))

/-- The dates that are reckoned with are whole years. -/
theorem isReckoned_iff (h : d.isValid = true) :
    IsReckoned d ↔ earliest.dayNumber ≤ d.dayNumber ∧ d.dayNumber ≤ latest.dayNumber := by
  obtain ⟨hleast, hmost, hday, hlast⟩ := isValid_iff.1 h
  have hdays := (daysOfMonth_mem d.year d.month).2
  rw [← Int.not_lt, ← precedes_iff h (e := earliest) rfl, ← Int.not_lt,
    ← precedes_iff (d := latest) rfl h]
  simp only [IsReckoned, Precedes, earliest, latest]
  omega

end Date

namespace Day

variable {d e : Day}

/-- **Days are in the order of the calendar.** -/
theorem precedes_calendar : calendar.precedes d e = true ↔ d.val.Precedes e.val := by
  rw [Date.precedes_iff d.property e.property]
  exact decide_eq_true_iff

theorem ofDate?_eq_some {date : Date} : ofDate? date = some d ↔ date = d.val := by
  unfold ofDate?
  split
  · exact ⟨fun h => congrArg Subtype.val (Option.some.inj h),
      fun h => congrArg some (Subtype.ext h)⟩
  · rename_i h
    exact ⟨nofun, fun hd => absurd (hd ▸ d.property) h⟩

/-- **A day so many days before is found if it is one that is reckoned with.** -/
theorem back?_calendar {days : Int} :
    calendar.back? d days = some e ↔ e.val.IsReckoned ∧ Date.IsDaysBefore days e.val d.val := by
  rw [Date.isDaysBefore_iff e.property d.property, Date.isReckoned_iff e.property]
  simp only [calendar, Option.ite_none_right_eq_some, ofDate?_eq_some]
  constructor
  · rintro ⟨hrange, hdate⟩
    have hnumber := congrArg Date.dayNumber hdate
    rw [Date.dayNumber_ofDayNumber] at hnumber
    exact ⟨hnumber ▸ hrange, hnumber.symm⟩
  · rintro ⟨hrange, hnumber⟩
    refine ⟨hnumber ▸ hrange, Date.dayNumber_inj (Date.isValid_ofDayNumber _) e.property ?_⟩
    rw [Date.dayNumber_ofDayNumber, hnumber]

end Day

end SpectralCoding
