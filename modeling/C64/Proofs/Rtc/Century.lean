import C64.Proofs.Rtc.Carrying
import Mathlib.Algebra.GroupWithZero.Nat
import Mathlib.Algebra.Order.BigOperators.Group.List
import Mathlib.Algebra.Order.Group.Nat

/-!
# A century of seconds

A time of the calendar is a number of seconds since the century began (`Time.instant`), and no two
times are the same number (`Time.Later.unique`). `Time.Later` says by these numbers which time comes
so many seconds behind another, with the day of the week counted apart. Behind the last second of
the century comes its first.

Registers that hold such a time in two digits for each field hold the next one a second later, in
the form of the hours that they had, with the switches and the other registers as they were
(`Registers.iterate_tick_holding`).
-/

namespace C64.Rtc

/-! ## Dates in whole numbers -/

/-- Whether February has a day more, in the Gregorian calendar. -/
def leapYear (year : Nat) : Bool := year % 4 = 0 && (year % 100 ≠ 0 || year % 400 = 0)

/-- The days of each month of a year since 2000. -/
def monthLengths (year : Nat) : List Nat :=
  [31, if leapYear (2000 + year) then 29 else 28, 31, 30, 31, 30, 31, 31, 30, 31, 30, 31]

def yearLength (year : Nat) : Nat := (monthLengths year).sum

/-- The days of the century before a date. -/
def daysBefore (year month date : Nat) : Nat :=
  ((List.range year).map yearLength).sum + ((monthLengths year).take (month - 1)).sum + (date - 1)

/-- None of the years of this century that four divides is left out. -/
theorem leapYear_century (year : UInt8) :
    year ≤ 99 → (leapYear (2000 + year.toNat) ↔ year % 4 = 0) := by
  revert year
  refine forall_byte ?_
  decide +kernel

/-- The days of a month, as the chip looks them up, are those of the calendar. -/
theorem toNat_daysInMonth (month : UInt8) {year : UInt8} (century : year ≤ 99) (least : 1 ≤ month)
    (most : month ≤ 12) :
    (monthLengths year.toNat)[month.toNat - 1]? = some (daysInMonth month year).toNat := by
  unfold daysInMonth monthLengths
  simp only [leapYear_century year century]
  by_cases h : year % 4 = 0
  · simp only [h, if_true]
    revert month
    refine forall_byte ?_
    decide +kernel
  · simp only [h, if_false]
    revert month
    refine forall_byte ?_
    decide +kernel

/-- In lengths laid end to end, what lies inside of one lies before the next. -/
theorem sum_take_lt {lengths : List Nat} {i j a : Nat} (inside : i < lengths.length)
    (small : a < lengths[i]) (lt : i < j) : (lengths.take i).sum + a < (lengths.take j).sum := by
  have upTo : (lengths.take (i + 1)).sum ≤ (lengths.take j).sum :=
    (List.take_prefix_take_left (by omega)).sublist.sum_le_sum fun _ _ => Nat.zero_le _
  rw [List.sum_take_succ _ _ inside] at upTo
  omega

/-- A place in lengths laid end to end is known by what lies before it. -/
theorem sum_take_inj {lengths : List Nat} {i j a b : Nat} (hi : i < lengths.length)
    (hj : j < lengths.length) (ha : a < lengths[i]) (hb : b < lengths[j])
    (h : (lengths.take i).sum + a = (lengths.take j).sum + b) : i = j ∧ a = b := by
  obtain before | rfl | behind := Nat.lt_trichotomy i j
  · have := sum_take_lt hi ha before
    omega
  · exact ⟨rfl, by omega⟩
  · have := sum_take_lt hj hb behind
    omega

theorem daysBefore_nextMonth {year month length : Nat} (least : 1 ≤ month) (pos : 1 ≤ length)
    (h : (monthLengths year)[month - 1]? = some length) :
    daysBefore year (month + 1) 1 = daysBefore year month length + 1 := by
  obtain ⟨inside, rfl⟩ := List.getElem?_eq_some_iff.mp h
  have next : month + 1 - 1 = (month - 1) + 1 := by omega
  unfold daysBefore
  rw [next, List.sum_take_succ _ _ inside]
  omega

theorem daysBefore_nextYear (year : Nat) :
    daysBefore (year + 1) 1 1 = daysBefore year 12 31 + 1 := by
  have split : yearLength year = ((monthLengths year).take 11).sum + 31 := by
    unfold yearLength monthLengths
    simp only [List.take_succ_cons, List.take_zero, List.sum_cons, List.sum_nil]
    omega
  unfold daysBefore
  rw [List.sum_range_succ, split]
  simp only [Nat.sub_self, List.take_zero, List.sum_nil, Nat.add_zero, Nat.add_one_sub_one]
  omega

namespace Time

/-! ## Times in whole numbers -/

/-- What the check of a start time asks for. -/
structure Valid (t : Time) : Prop where
  year : t.year ≤ 99
  month : 1 ≤ t.month ∧ t.month ≤ 12
  date : 1 ≤ t.date ∧ t.date ≤ daysInMonth t.month t.year
  day : 1 ≤ t.day ∧ t.day ≤ 7
  hours : t.hours ≤ 23
  minutes : t.minutes ≤ 59
  seconds : t.seconds ≤ 59

/-- The bounds of the time of day and of the day of the week in whole numbers. -/
theorem Valid.toNat_le {t : Time} (h : t.Valid) :
    t.hours.toNat ≤ 23 ∧ t.minutes.toNat ≤ 59 ∧ t.seconds.toNat ≤ 59 ∧ 1 ≤ t.day.toNat ∧
      t.day.toNat ≤ 7 := by
  have ⟨_, _, _, day, hours, minutes, seconds⟩ := h
  simp only [UInt8.le_iff_toNat_le, UInt8.reduceToNat] at day hours minutes seconds
  exact ⟨hours, minutes, seconds, day⟩

theorem error?_eq_none_iff {t : Time} : t.error? = none ↔ t.Valid := by
  unfold error? ranges
  simp only [List.findSome?_eq_none_iff, List.mem_cons, List.not_mem_nil, or_false,
    ite_eq_left_iff, not_and, UInt8.not_le, reduceCtorEq, imp_false, Classical.not_imp,
    UInt8.not_lt, forall_eq_or_imp, UInt8.zero_le, true_and, forall_eq]
  exact ⟨fun ⟨year, month, date, day, hours, minutes, seconds⟩ =>
      ⟨year, month, date, day, hours, minutes, seconds⟩,
    fun ⟨year, month, date, day, hours, minutes, seconds⟩ =>
      ⟨year, month, date, day, hours, minutes, seconds⟩⟩

end Time

def secondsOfDay : Nat := 24 * 60 * 60

def secondsOfCentury : Nat := daysBefore 100 1 1 * secondsOfDay

namespace Time

/-- The days of the century before the day of a time. -/
def dayNumber (t : Time) : Nat := daysBefore t.year.toNat t.month.toNat t.date.toNat

/-- The seconds since midnight. -/
def secondOfDay (t : Time) : Nat := (t.hours.toNat * 60 + t.minutes.toNat) * 60 + t.seconds.toNat

/-- The seconds since the century began. -/
def instant (t : Time) : Nat := t.dayNumber * secondsOfDay + t.secondOfDay

/-- The time `t'` is `n` seconds behind `t`. -/
structure Later (t : Time) (n : Nat) (t' : Time) : Prop where
  valid : t'.error? = none
  instant : t'.instant = (t.instant + n) % secondsOfCentury
  /-- The days of the week go round with the days that passed. -/
  day : t'.day.toNat = (t.day.toNat - 1 + (t.secondOfDay + n) / secondsOfDay) % 7 + 1

/-! ## The next second -/

/-- The day behind a day, at the same time of day. -/
def nextDay (t : Time) : Time :=
  let t := { t with day := t.day % 7 + 1 }
  if t.date < daysInMonth t.month t.year then { t with date := t.date + 1 }
  else if t.month < 12 then { t with date := 1, month := t.month + 1 }
  else { t with date := 1, month := 1, year := (t.year + 1) % 100 }

/-- The midnight before a time of day. -/
def midnight (t : Time) : Time := { t with hours := 0, minutes := 0, seconds := 0 }

theorem secondOfDay_midnight (t : Time) : t.midnight.secondOfDay = 0 := by
  simp [midnight, secondOfDay]

/-- The second behind a second. -/
def next (t : Time) : Time :=
  if t.seconds < 59 then { t with seconds := t.seconds + 1 }
  else if t.minutes < 59 then { t with seconds := 0, minutes := t.minutes + 1 }
  else if t.hours < 23 then { t with seconds := 0, minutes := 0, hours := t.hours + 1 }
  else t.midnight.nextDay

theorem Valid.nextDay {t : Time} (h : t.Valid) : t.nextDay.Valid := by
  obtain ⟨year, month, date, day, hours, minutes, seconds⟩ := h
  have next := daysInMonth_bounds (t.month + 1) t.year
  have january := daysInMonth_bounds 1 ((t.year + 1) % 100)
  unfold Time.nextDay
  simp only []
  split
  · exact ⟨year, month, by grind, by grind, hours, minutes, seconds⟩
  · split
    · exact ⟨year, by grind, by grind, by grind, hours, minutes, seconds⟩
    · exact ⟨by grind, by grind, by grind, by grind, hours, minutes, seconds⟩

theorem Valid.midnight {t : Time} (h : t.Valid) : t.midnight.Valid := by
  have zero : (0 : UInt8) ≤ 23 ∧ (0 : UInt8) ≤ 59 := by decide
  unfold Time.midnight
  exact ⟨h.year, h.month, h.date, h.day, zero.1, zero.2, zero.2⟩

theorem Valid.next {t : Time} (h : t.Valid) : t.next.Valid := by
  have ⟨year, month, date, day, hours, minutes, seconds⟩ := h
  have zero : (0 : UInt8) ≤ 59 := by decide
  unfold Time.next
  split
  · exact ⟨year, month, date, day, hours, minutes, by grind⟩
  · split
    · exact ⟨year, month, date, day, hours, by grind, zero⟩
    · split
      · exact ⟨year, month, date, day, by grind, zero, zero⟩
      · exact h.midnight.nextDay

theorem Valid.inMonth {t : Time} (h : t.Valid) :
    ∃ inside : t.month.toNat - 1 < (monthLengths t.year.toNat).length,
      t.date.toNat - 1 < (monthLengths t.year.toNat)[t.month.toNat - 1] := by
  obtain ⟨inside, length⟩ := List.getElem?_eq_some_iff.mp
    (toNat_daysInMonth t.month h.year h.month.1 h.month.2)
  have least := UInt8.le_iff_toNat_le.mp h.date.1
  have most := UInt8.le_iff_toNat_le.mp h.date.2
  refine ⟨inside, ?_⟩
  rw [length]
  exact Nat.lt_of_lt_of_le (Nat.sub_lt least (by decide)) most

theorem Valid.inYear {t : Time} (h : t.Valid) :
    ((monthLengths t.year.toNat).take (t.month.toNat - 1)).sum + (t.date.toNat - 1) <
      yearLength t.year.toNat := by
  obtain ⟨inside, small⟩ := h.inMonth
  exact sum_take_lt inside small inside

theorem Valid.inCentury {t : Time} (h : t.Valid) :
    ∃ inside : t.year.toNat < ((List.range 100).map yearLength).length,
      ((monthLengths t.year.toNat).take (t.month.toNat - 1)).sum + (t.date.toNat - 1) <
        ((List.range 100).map yearLength)[t.year.toNat] := by
  have year : t.year.toNat < 100 := Nat.lt_succ_of_le (UInt8.le_iff_toNat_le.mp h.year)
  refine ⟨by simpa using year, ?_⟩
  simpa using h.inYear

theorem Valid.dayNumber_eq {t : Time} (h : t.Valid) :
    t.dayNumber = (((List.range 100).map yearLength).take t.year.toNat).sum +
      (((monthLengths t.year.toNat).take (t.month.toNat - 1)).sum + (t.date.toNat - 1)) := by
  have year : t.year.toNat ≤ 100 := Nat.le_succ_of_le (UInt8.le_iff_toNat_le.mp h.year)
  unfold Time.dayNumber daysBefore
  rw [← List.map_take, List.take_range, Nat.min_eq_left year]
  omega

theorem Valid.dayNumber_lt {t : Time} (h : t.Valid) : t.dayNumber < daysBefore 100 1 1 := by
  obtain ⟨inside, small⟩ := h.inCentury
  have lt := sum_take_lt inside small (j := 100) (by simpa using inside)
  rw [← h.dayNumber_eq] at lt
  exact lt

theorem Valid.secondOfDay_lt {t : Time} (h : t.Valid) : t.secondOfDay < secondsOfDay := by
  have bounds := h.toNat_le
  unfold Time.secondOfDay secondsOfDay
  omega

theorem Valid.instant_lt {t : Time} (h : t.Valid) : t.instant < secondsOfCentury := by
  have day := h.dayNumber_lt
  have second := h.secondOfDay_lt
  calc t.instant = t.dayNumber * secondsOfDay + t.secondOfDay := rfl
    _ < (t.dayNumber + 1) * secondsOfDay := by rw [Nat.add_mul]; omega
    _ ≤ secondsOfCentury := Nat.mul_le_mul_right _ day

/-- The time of day of an instant is what is left over the whole days. -/
theorem Valid.instant_mod {t : Time} (h : t.Valid) : t.instant % secondsOfDay = t.secondOfDay := by
  unfold Time.instant
  rw [Nat.mul_add_mod_self_right]
  exact Nat.mod_eq_of_lt h.secondOfDay_lt

theorem toNat_add_one {a b : UInt8} (h : a < b) : (a + 1).toNat = a.toNat + 1 := by
  have := b.toNat_lt
  rw [UInt8.lt_iff_toNat_lt] at h
  rw [UInt8.toNat_add]
  exact Nat.mod_eq_of_lt (by simp; omega)

/-- The next day is one more day of the century, or the first behind the last. -/
theorem Valid.dayNumber_nextDay {t : Time} (h : t.Valid) :
    t.nextDay.dayNumber = t.dayNumber + 1 ∨
      t.nextDay.dayNumber = 0 ∧ t.dayNumber + 1 = daysBefore 100 1 1 := by
  have length := toNat_daysInMonth t.month h.year h.month.1 h.month.2
  have monthPos := UInt8.le_iff_toNat_le.mp h.month.1
  have datePos := UInt8.le_iff_toNat_le.mp h.date.1
  unfold Time.nextDay
  simp only []
  split
  · next within =>
    refine .inl ?_
    simp only [dayNumber, daysBefore, toNat_add_one within]
    simp at datePos
    omega
  · next full =>
    have last : t.date = daysInMonth t.month t.year :=
      UInt8.le_antisymm h.date.2 (UInt8.not_lt.mp full)
    have number : t.dayNumber =
        daysBefore t.year.toNat t.month.toNat (daysInMonth t.month t.year).toNat := by
      rw [dayNumber, last]
    rw [number]
    split
    · next within =>
      refine .inl ?_
      simp only [dayNumber, toNat_add_one within]
      exact daysBefore_nextMonth monthPos (last ▸ datePos) length
    · next december =>
      have december : t.month = 12 := UInt8.le_antisymm h.month.2 (UInt8.not_lt.mp december)
      have length : daysInMonth t.month t.year = 31 := by rw [december]; rfl
      have wraps : (t.year + 1) % 100 = if t.year = 99 then 0 else t.year + 1 := by
        have := h.year
        grind
      rw [length, december, wraps]
      by_cases final : t.year = 99
      · refine .inr ⟨?_, ?_⟩
        · rw [if_pos final]
          rfl
        · rw [final]
          exact (daysBefore_nextYear 99).symm
      · refine .inl ?_
        have within : t.year < 99 := UInt8.lt_of_le_of_ne h.year final
        simp only [dayNumber, if_neg final, toNat_add_one within]
        exact daysBefore_nextYear t.year.toNat

theorem secondOfDay_nextDay (t : Time) : t.nextDay.secondOfDay = t.secondOfDay := by
  unfold Time.nextDay
  simp only []
  split
  · rfl
  · split <;> rfl

theorem Valid.instant_next {t : Time} (h : t.Valid) :
    t.next.instant = (t.instant + 1) % secondsOfCentury := by
  -- The last second of the century is the only one that another does not follow in the numbers.
  have follows : t.next.instant = t.instant + 1 ∨
      t.next.instant = 0 ∧ t.instant + 1 = secondsOfCentury := by
    unfold Time.next
    split
    · next within =>
      refine .inl ?_
      simp only [instant, dayNumber, secondOfDay, toNat_add_one within]
      omega
    · next full =>
      have last : t.seconds = 59 := UInt8.le_antisymm h.seconds (UInt8.not_lt.mp full)
      split
      · next within =>
        refine .inl ?_
        simp only [instant, dayNumber, secondOfDay, toNat_add_one within, last, UInt8.reduceToNat]
        omega
      · next full =>
        have last' : t.minutes = 59 := UInt8.le_antisymm h.minutes (UInt8.not_lt.mp full)
        split
        · next within =>
          refine .inl ?_
          simp only [instant, dayNumber, secondOfDay, toNat_add_one within, last, last',
            UInt8.reduceToNat]
          omega
        · next full =>
          have last'' : t.hours = 23 := UInt8.le_antisymm h.hours (UInt8.not_lt.mp full)
          have second : t.secondOfDay + 1 = secondsOfDay := by
            rw [secondOfDay, last, last', last'']
            rfl
          have count : t.instant + 1 = (t.dayNumber + 1) * secondsOfDay := by
            rw [instant, Nat.add_assoc, second, Nat.succ_mul]
          rw [instant, count, secondOfDay_nextDay, secondOfDay_midnight, Nat.add_zero]
          obtain day | ⟨first, day⟩ := h.midnight.dayNumber_nextDay
          · exact .inl (congrArg (· * secondsOfDay) day)
          · refine .inr ⟨?_, congrArg (· * secondsOfDay) day⟩
            rw [first, Nat.zero_mul]
  obtain one | ⟨zero, last⟩ := follows
  · rw [← one, Nat.mod_eq_of_lt h.next.instant_lt]
  · rw [zero, last, Nat.mod_self]

theorem day_nextDay (t : Time) : t.nextDay.day = t.day % 7 + 1 := by
  unfold Time.nextDay
  simp only []
  split
  · rfl
  · split <;> rfl

/-- The days of the week go on with the second that ends a day. -/
theorem Valid.day_next {t : Time} (h : t.Valid) :
    t.next.day = if t.secondOfDay + 1 = secondsOfDay then t.day % 7 + 1 else t.day := by
  have bounds := h.toNat_le
  have last : t.secondOfDay + 1 = secondsOfDay ↔
      ¬t.seconds < 59 ∧ ¬t.minutes < 59 ∧ ¬t.hours < 23 := by
    simp only [UInt8.not_lt, UInt8.le_iff_toNat_le, UInt8.reduceToNat]
    unfold secondOfDay secondsOfDay
    omega
  unfold Time.next
  simp only [last]
  split
  · next within => rw [if_neg fun ends => ends.1 within]
  · next second =>
    split
    · next within => rw [if_neg fun ends => ends.2.1 within]
    · next minute =>
      split
      · next within => rw [if_neg fun ends => ends.2.2 within]
      · next hour => rw [if_pos ⟨second, minute, hour⟩, day_nextDay, Time.midnight]

/-! ## Any number of seconds -/

theorem Later.refl {t : Time} (h : t.Valid) : t.Later 0 t where
  valid := error?_eq_none_iff.mpr h
  instant := by rw [Nat.add_zero, Nat.mod_eq_of_lt h.instant_lt]
  day := by
    have bounds := h.toNat_le
    rw [Nat.add_zero t.secondOfDay, Nat.div_eq_of_lt h.secondOfDay_lt]
    omega

/-- Whole days of the century do not move the time of day. -/
theorem Later.secondOfDay_eq {t t' : Time} {n : Nat} (h : t.Later n t') :
    t'.secondOfDay = (t.secondOfDay + n) % secondsOfDay := by
  have valid := error?_eq_none_iff.mp h.valid
  have whole : t.instant = t.dayNumber * secondsOfDay + t.secondOfDay := rfl
  rw [← valid.instant_mod, h.instant, secondsOfCentury,
    Nat.mod_mod_of_dvd _ (Nat.dvd_mul_left _ _), whole, Nat.add_assoc, Nat.mul_add_mod_self_right]

theorem toNat_nextWeekday (day : UInt8) : (day % 7 + 1).toNat = day.toNat % 7 + 1 := by
  have small : day % 7 < 7 := UInt8.mod_lt day (by decide)
  rw [toNat_add_one small, UInt8.toNat_mod]
  rfl

theorem Later.next {t t' : Time} {n : Nat} (h : t.Later n t') : t.Later (n + 1) t'.next := by
  have valid := error?_eq_none_iff.mp h.valid
  refine ⟨error?_eq_none_iff.mpr valid.next, ?_, ?_⟩
  · rw [valid.instant_next, h.instant, Nat.mod_add_mod, Nat.add_assoc]
  · have midnight : t'.secondOfDay + 1 = secondsOfDay ↔ secondsOfDay ∣ t.secondOfDay + n + 1 := by
      have small := valid.secondOfDay_lt
      have whole := Nat.div_add_mod (t.secondOfDay + n) secondsOfDay
      rw [← h.secondOfDay_eq] at whole
      rw [← whole, Nat.add_assoc, Nat.dvd_add_right (Nat.dvd_mul_right _ _)]
      exact ⟨fun last => last ▸ Nat.dvd_refl _,
        fun divides => Nat.le_antisymm small (Nat.le_of_dvd (Nat.succ_pos _) divides)⟩
    rw [valid.day_next, ← Nat.add_assoc, Nat.succ_div]
    by_cases ends : t'.secondOfDay + 1 = secondsOfDay
    · rw [if_pos ends, if_pos (midnight.mp ends), toNat_nextWeekday, h.day]
      omega
    · rw [if_neg ends, if_neg (mt midnight.mpr ends), h.day]
      rfl

/-- No two times are the same number of seconds behind another. -/
theorem Later.unique {t u v : Time} {n : Nat} (hu : t.Later n u) (hv : t.Later n v) : u = v := by
  have validU := error?_eq_none_iff.mp hu.valid
  have validV := error?_eq_none_iff.mp hv.valid
  have second : u.secondOfDay = v.secondOfDay := hu.secondOfDay_eq.trans hv.secondOfDay_eq.symm
  have day : u.dayNumber = v.dayNumber := by
    have same : u.instant = v.instant := hu.instant.trans hv.instant.symm
    unfold Time.instant at same
    rw [second] at same
    exact Nat.eq_of_mul_eq_mul_right (by decide) (Nat.add_right_cancel same)
  -- Day and second are places in lengths laid end to end: years, months, days, hours, minutes.
  obtain ⟨insideU, yearU⟩ := validU.inCentury
  obtain ⟨insideV, yearV⟩ := validV.inCentury
  rw [validU.dayNumber_eq, validV.dayNumber_eq] at day
  obtain ⟨year, inYear⟩ := sum_take_inj insideU insideV yearU yearV day
  have weekday : u.day.toNat = v.day.toNat := hu.day.trans hv.day.symm
  obtain ⟨insideU, monthU⟩ := validU.inMonth
  obtain ⟨insideV, monthV⟩ := validV.inMonth
  have ⟨_, monthsU, datesU, _, _, minutesU, secondsU⟩ := validU
  have ⟨_, monthsV, datesV, _, _, minutesV, secondsV⟩ := validV
  obtain ⟨uYear, _, _, _, _, _, _⟩ := u
  obtain ⟨vYear, _, _, _, _, _, _⟩ := v
  obtain rfl : uYear = vYear := UInt8.toNat_inj.mp year
  obtain ⟨month, date⟩ := sum_take_inj insideU insideV monthU monthV inYear
  simp only [Time.mk.injEq, secondOfDay, UInt8.le_iff_toNat_le, ← UInt8.toNat_inj,
    UInt8.reduceToNat, true_and] at *
  omega

end Time

/-! ## Times in registers -/

/-- An hour in either form of the hours register. -/
def hoursRegister (twelve : Bool) (hour : UInt8) : UInt8 :=
  if twelve then
    twelveHourBit ||| (if 12 ≤ hour then afternoonBit else 0) |||
      toDigits (if hour % 12 = 0 then 12 else hour % 12)
  else toDigits hour

theorem hour_hoursRegister (twelve : Bool) {r : Registers} {hour : UInt8} (small : hour ≤ 23)
    (h : r.hours = hoursRegister twelve hour) : r.hour = hour := by
  have all : ∀ hour : UInt8, hour ≤ 23 → ∀ twelve,
      ({ Registers.zero with hours := hoursRegister twelve hour } : Registers).hour = hour := by
    refine forall_byte ?_
    decide +kernel
  have back := all hour small twelve
  unfold Registers.hour at back ⊢
  rwa [h]

/-- The hours go round in the form that they have. -/
theorem tickHour_hoursRegister (twelve : Bool) {hour : UInt8} (small : hour ≤ 23) :
    tickHour (hoursRegister twelve hour) =
      (hoursRegister twelve (if hour < 23 then hour + 1 else 0), !(hour < 23)) := by
  have all : ∀ hour : UInt8, hour ≤ 23 → ∀ twelve, tickHour (hoursRegister twelve hour) =
      (hoursRegister twelve (if hour < 23 then hour + 1 else 0), !(hour < 23)) := by
    refine forall_byte ?_
    decide +kernel
  exact all hour small twelve

/-- The masks of the registers leave the digits of a number in range. -/
theorem ofDigits_masked (n : UInt8) :
    (n ≤ 59 → ofDigits (toDigits n &&& 0x7F) = n) ∧ (n ≤ 31 → ofDigits (toDigits n &&& 0x3F) = n) ∧
      (n ≤ 12 → ofDigits (toDigits n &&& 0x1F) = n) := by
  revert n
  refine forall_byte ?_
  decide +kernel

theorem and_seven (day : UInt8) : day ≤ 7 → day &&& 0x07 = day := by
  revert day
  refine forall_byte ?_
  decide +kernel

theorem toDigits_running (n : UInt8) : n ≤ 59 → (toDigits n ||| 0) &&& haltBit = 0 := by
  revert n
  refine forall_byte ?_
  decide +kernel

namespace Registers

/-- The registers that hold a time, the hours in either form, with the clock running. -/
def holding (twelve : Bool) (t : Time) (control trickle : UInt8) : Registers :=
  { ofTime t false with hours := hoursRegister twelve t.hours, control, trickle }

example (t : Time) : holding false t 0 0 = ofTime t false := rfl

variable (twelve : Bool) {t : Time} (control trickle : UInt8)

theorem halted_holding (valid : t.Valid) : (holding twelve t control trickle).halted = false := by
  show ((toDigits t.seconds ||| 0) &&& haltBit != 0) = false
  rw [toDigits_running t.seconds valid.seconds]
  rfl

theorem time_holding (valid : t.Valid) : (holding twelve t control trickle).time = t := by
  have days := daysInMonth_bounds t.month t.year
  have year : ofDigits (toDigits t.year) = t.year := ofDigits_toDigits (by grind [valid.year])
  have month := (ofDigits_masked t.month).2.2 valid.month.2
  have date := (ofDigits_masked t.date).2.1 (UInt8.le_trans valid.date.2 days.2)
  have day := and_seven t.day valid.day.2
  have minutes := (ofDigits_masked t.minutes).1 valid.minutes
  have seconds := (ofDigits_masked t.seconds).1 valid.seconds
  have hour : (holding twelve t control trickle).hour = t.hours :=
    hour_hoursRegister twelve valid.hours rfl
  unfold Registers.time
  rw [hour]
  simp [holding, ofTime, year, month, date, day, minutes, seconds]

theorem tick_holding (valid : t.Valid) :
    (holding twelve t control trickle).tick = holding twelve t.next control trickle := by
  have held := time_holding twelve control trickle valid
  have hours : tickHour (holding twelve t control trickle).hours = _ :=
    tickHour_hoursRegister twelve valid.hours
  have running : (holding twelve t control trickle).seconds &&& haltBit = 0 :=
    toDigits_running t.seconds valid.seconds
  rw [tick_eq]
  simp only [endsYear, endsMonth, endsDay, endsHour, endsMinute, lastDate, ← tickHour_newDay, held,
    hours, running, ← UInt8.not_lt, Time.next, Time.nextDay, Time.midnight]
  by_cases second : t.seconds < 59
  · simp [second, holding, ofTime]
  · by_cases minute : t.minutes < 59
    · simp [second, minute, holding, ofTime]
    · by_cases hour : t.hours < 23
      · simp [second, minute, hour, holding, ofTime]
      · by_cases date : t.date < daysInMonth t.month t.year
        · simp [second, minute, hour, date, holding, ofTime]
        · by_cases month : t.month < 12
          · simp [second, minute, hour, date, month, holding, ofTime]
          · simp [second, minute, hour, date, month, holding, ofTime]

theorem iterate_tick_holding (valid : t.Valid) (n : Nat) :
    ∃ t', t.Later n t' ∧
      tick^[n] (holding twelve t control trickle) = holding twelve t' control trickle := by
  induction n with
  | zero => exact ⟨t, .refl valid, rfl⟩
  | succ n ih =>
    obtain ⟨t', later, held⟩ := ih
    refine ⟨t'.next, later.next, ?_⟩
    rw [Function.iterate_succ_apply', held]
    exact tick_holding twelve control trickle (Time.error?_eq_none_iff.mp later.valid)

end Registers

end C64.Rtc
