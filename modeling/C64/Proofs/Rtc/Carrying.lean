import C64.Proofs.Fault
import C64.Rtc.Calendar

/-!
# What a second makes of any registers

Software can write any byte into the registers of the calendar, and a second has to go on from
there. `Registers.Carries` says what it may make of them: each register that the second counts up
or carries into holds two decimal digits in its range afterwards, and all others are as they were.

`tick_carries` says that a second does so to all registers, whatever they hold, with one exception:
in the form from one to twelve, an hour above twelve is not carried. It is counted on like any
other, and from nineteen on its digits reach the bit of the afternoon (`hours_past_twelve_spill`).
The arithmetic is in bytes, where a sum could wrap; `Checked.tick` is the same second with each sum
and product checked, and none of them leaves a byte.
-/

namespace C64.Rtc

/-! ## Registers in range -/

/-- Two decimal digits for a number in a range. -/
def InDigits (least greatest b : UInt8) : Prop :=
  b >>> 4 ≤ 9 ∧ b &&& 0x0F ≤ 9 ∧ least ≤ ofDigits b ∧ ofDigits b ≤ greatest
deriving Decidable

theorem inDigits_toDigits {least greatest n : UInt8} (small : n < 100) (le : least ≤ n)
    (le' : n ≤ greatest) : InDigits least greatest (toDigits n) := by
  have digits : ∀ n : UInt8, n < 100 → toDigits n >>> 4 ≤ 9 ∧ toDigits n &&& 0x0F ≤ 9 := by
    refine forall_byte ?_
    decide +kernel
  obtain ⟨high, low⟩ := digits n small
  refine ⟨high, low, ?_, ?_⟩
  · rwa [ofDigits_toDigits small]
  · rwa [ofDigits_toDigits small]

/-- The hours register `h'` is in range behind an hour that `h` held: in the same form, and in that
from one to twelve with the bit of the afternoon changed behind the eleventh hour and no other. -/
def HoursFollow (h h' : UInt8) : Prop :=
  anyBit h' twelveHourBit = anyBit h twelveHourBit ∧
    if anyBit h twelveHourBit then
      InDigits 1 12 (h' &&& 0x5F) ∧
        (anyBit h' afternoonBit ≠ anyBit h afternoonBit ↔ ofDigits (h &&& 0x1F) = 11)
    else InDigits 0 23 h'
deriving Decidable

/-- An hour above twelve in the form from one to twelve. -/
def PastTwelve (h : UInt8) : Prop := anyBit h twelveHourBit ∧ 12 < ofDigits (h &&& 0x1F)
deriving Decidable

/-- The last hour of a day, in either form. -/
def lastHour (h : UInt8) : Bool :=
  if anyBit h twelveHourBit then ofDigits (h &&& 0x1F) = 11 && anyBit h afternoonBit
  else 23 ≤ ofDigits (h &&& 0x3F)

namespace Registers

/-- Whether the second carries into the minutes, and so on upwards. -/
def endsMinute (r : Registers) : Bool := 59 ≤ r.time.seconds

def endsHour (r : Registers) : Bool := r.endsMinute && 59 ≤ r.time.minutes

def endsDay (r : Registers) : Bool := r.endsHour && lastHour r.hours

/-- The last day of a month, or a date behind it. -/
def lastDate (r : Registers) : Bool := daysInMonth r.time.month r.time.year ≤ r.time.date

def endsMonth (r : Registers) : Bool := r.endsDay && r.lastDate

def endsYear (r : Registers) : Bool := r.endsMonth && 12 ≤ r.time.month

/-- The registers `r'` are those that a second may make of `r`. -/
structure Carries (r r' : Registers) : Prop where
  seconds : InDigits 0 59 (r'.seconds &&& 0x7F)
  halted : r'.halted = r.halted
  minutes : if r.endsMinute then InDigits 0 59 r'.minutes else r'.minutes = r.minutes
  hours : if r.endsHour then ¬PastTwelve r.hours → HoursFollow r.hours r'.hours
    else r'.hours = r.hours
  day : if r.endsDay then InDigits 1 7 r'.day else r'.day = r.day
  date : if r.endsDay then InDigits 1 (daysInMonth r'.time.month r'.time.year) r'.date
    else r'.date = r.date
  month : if r.endsMonth then InDigits 1 12 r'.month else r'.month = r.month
  year : if r.endsYear then InDigits 0 99 r'.year else r'.year = r.year
  control : r'.control = r.control
  trickle : r'.trickle = r.trickle

end Registers

/-! ## The carries -/

theorem ofDigits_le (b : UInt8) : ofDigits b ≤ 165 := by
  have small := b.toNat_lt
  rw [UInt8.le_iff_toNat_le, toNat_ofDigits]
  show _ ≤ 165
  omega

theorem daysInMonth_bounds (month year : UInt8) :
    28 ≤ daysInMonth month year ∧ daysInMonth month year ≤ 31 := by
  unfold daysInMonth
  grind

theorem inDigits_day (day : UInt8) : InDigits 1 7 (day % 7 + 1) := by
  revert day
  refine forall_byte ?_
  decide +kernel

/-- The switch that halts the clock is apart from the digits of the seconds. -/
theorem halt_or_digits (b : UInt8) {n : UInt8} (small : n < 60) :
    (b &&& haltBit ||| toDigits n) &&& 0x7F = toDigits n ∧
      anyBit (b &&& haltBit ||| toDigits n) haltBit = anyBit b haltBit := by
  have digits : ∀ n : UInt8, n < 60 → ∀ on : Bool,
      ((if on then haltBit else 0) ||| toDigits n) &&& 0x7F = toDigits n ∧
        anyBit ((if on then haltBit else 0) ||| toDigits n) haltBit = on := by
    refine forall_byte ?_
    decide +kernel
  have switch : ∀ b : UInt8, b &&& haltBit = if anyBit b haltBit then haltBit else 0 := by
    refine forall_byte ?_
    decide +kernel
  rw [switch]
  exact digits n small _

theorem tickHour_follows (h : UInt8) (within : ¬PastTwelve h) : HoursFollow h (tickHour h).1 := by
  revert h
  refine forall_byte ?_
  decide +kernel

theorem tickHour_newDay (h : UInt8) : (tickHour h).2 = lastHour h := by
  revert h
  refine forall_byte ?_
  decide +kernel

namespace Registers

theorem tickDay_eq (r : Registers) (seconds minutes hours : UInt8) :
    tickDay { r with seconds, minutes, hours } =
      { r with
        seconds, minutes, hours
        day := r.time.day % 7 + 1
        date := toDigits (if r.lastDate then 1 else r.time.date + 1)
        month := if r.lastDate then toDigits (if 12 ≤ r.time.month then 1 else r.time.month + 1)
          else r.month
        year := if r.lastDate && 12 ≤ r.time.month then toDigits ((r.time.year + 1) % 100)
          else r.year } := by
  have date_le : r.time.date ≤ 165 := ofDigits_le _
  have days : r.time.date + 1 ≤ daysInMonth r.time.month r.time.year ↔ ¬r.lastDate := by
    have := daysInMonth_bounds r.time.month r.time.year
    unfold lastDate
    grind
  show (if r.time.date + 1 ≤ daysInMonth r.time.month r.time.year then
      { r with
        seconds, minutes, hours
        day := r.time.day % 7 + 1
        date := toDigits (r.time.date + 1) }
    else if r.time.month < 12 then
      { r with
        seconds, minutes, hours
        day := r.time.day % 7 + 1
        date := toDigits 1
        month := toDigits (r.time.month + 1) }
    else
      { r with
        seconds, minutes, hours
        day := r.time.day % 7 + 1
        date := toDigits 1
        month := toDigits 1
        year := toDigits ((r.time.year + 1) % 100) }) = _
  by_cases last : r.lastDate
  · by_cases december : 12 ≤ r.time.month
    · simp [days, last, december, UInt8.not_lt.mpr december]
    · simp [days, last, december, UInt8.not_le.mp december]
  · simp [days, last]

/-- A second by what it ends: each register counts up where the one below comes to its end. -/
theorem tick_eq (r : Registers) :
    r.tick =
      { seconds :=
          r.seconds &&& haltBit ||| toDigits (if r.endsMinute then 0 else r.time.seconds + 1)
        minutes := if r.endsMinute then toDigits (if r.endsHour then 0 else r.time.minutes + 1)
          else r.minutes
        hours := if r.endsHour then (tickHour r.hours).1 else r.hours
        day := if r.endsDay then r.time.day % 7 + 1 else r.day
        date := if r.endsDay then toDigits (if r.endsMonth then 1 else r.time.date + 1) else r.date
        month := if r.endsMonth then toDigits (if r.endsYear then 1 else r.time.month + 1)
          else r.month
        year := if r.endsYear then toDigits ((r.time.year + 1) % 100) else r.year
        control := r.control
        trickle := r.trickle } := by
  have seconds_le : r.time.seconds ≤ 165 := ofDigits_le _
  have minutes_le : r.time.minutes ≤ 165 := ofDigits_le _
  have seconds : r.time.seconds + 1 < 60 ↔ ¬r.endsMinute := by
    unfold endsMinute
    grind
  have minutes (ends : r.endsMinute) : r.time.minutes + 1 < 60 ↔ ¬r.endsHour := by
    unfold endsHour
    grind
  have day (ends : r.endsHour) : (tickHour r.hours).2 = r.endsDay := by
    rw [tickHour_newDay, endsDay, ends, Bool.true_and]
  have none : toDigits 0 = 0 := by decide
  show (if r.time.seconds + 1 < 60 then
      { r with seconds := r.seconds &&& haltBit ||| toDigits (r.time.seconds + 1) }
    else if r.time.minutes + 1 < 60 then
      { r with seconds := r.seconds &&& haltBit, minutes := toDigits (r.time.minutes + 1) }
    else
      let r' : Registers :=
        { r with seconds := r.seconds &&& haltBit, minutes := 0, hours := (tickHour r.hours).1 }
      if (tickHour r.hours).2 then r'.tickDay else r') = _
  by_cases hminute : r.endsMinute
  · by_cases hhour : r.endsHour
    · by_cases hday : r.endsDay
      · by_cases hmonth : r.lastDate <;>
          simp [seconds, hminute, minutes hminute, hhour, day hhour, hday, endsYear, endsMonth,
            hmonth, none, tickDay_eq]
      · simp [seconds, hminute, minutes hminute, hhour, day hhour, hday, endsYear, endsMonth, none]
    · simp [seconds, hminute, minutes hminute, hhour, endsDay, endsYear, endsMonth, none]
  · simp [seconds, hminute, endsHour, endsDay, endsYear, endsMonth]

theorem tick_halted (r : Registers) : r.tick.halted = r.halted := by
  rw [tick_eq]
  refine (halt_or_digits r.seconds ?_).2
  unfold endsMinute
  grind

end Registers

/-! ## Arithmetic that would leave a byte -/

namespace Checked

/-- The sum of two bytes, if it is a byte. -/
def add (a b : UInt8) : Except Fault UInt8 :=
  if a.toNat + b.toNat ≤ 0xFF then .ok (a + b) else .error .overflow

/-- The product of two bytes, if it is a byte. -/
def mul (a b : UInt8) : Except Fault UInt8 :=
  if a.toNat * b.toNat ≤ 0xFF then .ok (a * b) else .error .overflow

/-- `C64.ofDigits`, checked. -/
def ofDigits (b : UInt8) : Except Fault UInt8 := do add (← mul (b >>> 4) 10) (b &&& 0x0F)

/-- `Rtc.tickHour`, checked. -/
def tickHour (hours : UInt8) : Except Fault (UInt8 × Bool) := do
  if anyBit hours twelveHourBit then
    let afternoon := hours &&& afternoonBit
    let hour ← ofDigits (hours &&& 0x1F)
    if hour = 11 then
      return (twelveHourBit ||| (afternoon ^^^ afternoonBit) ||| toDigits 12, afternoon != 0)
    else if hour = 12 then return (twelveHourBit ||| afternoon ||| 0x01, false)
    else return (twelveHourBit ||| afternoon ||| toDigits (← add hour 1), false)
  else
    let next ← add (← ofDigits (hours &&& 0x3F)) 1
    if next < 24 then return (toDigits next, false) else return (0, true)

/-- `Registers.tickDay`, checked. -/
def tickDay (r : Registers) : Except Fault Registers := do
  let day ← add ((r.day &&& 0x07) % 7) 1
  let year ← ofDigits r.year
  let month ← ofDigits (r.month &&& 0x1F)
  let date ← add (← ofDigits (r.date &&& 0x3F)) 1
  if date ≤ daysInMonth month year then return { r with day, date := toDigits date }
  else if month < 12 then
    return { r with day, date := 0x01, month := toDigits (← add month 1) }
  else return { r with day, date := 0x01, month := 0x01, year := toDigits ((← add year 1) % 100) }

/-- `Registers.tick`, checked. -/
def tick (r : Registers) : Except Fault Registers := do
  let seconds ← add (← ofDigits (r.seconds &&& 0x7F)) 1
  let halt := r.seconds &&& haltBit
  if seconds < 60 then return { r with seconds := halt ||| toDigits seconds }
  else
    let minutes ← add (← ofDigits (r.minutes &&& 0x7F)) 1
    if minutes < 60 then return { r with seconds := halt, minutes := toDigits minutes }
    else
      let (hours, newDay) ← tickHour r.hours
      let r := { r with seconds := halt, minutes := 0, hours }
      if newDay then tickDay r else return r

theorem add_one {a : UInt8} (small : a ≤ 165) : add a 1 = .ok (a + 1) := by
  unfold add
  rw [if_pos]
  rw [UInt8.le_iff_toNat_le] at small
  exact Nat.le_trans (Nat.succ_le_succ small) (by decide)

theorem ofDigits_eq (b : UInt8) : ofDigits b = .ok (C64.ofDigits b) := by
  have fits : (b >>> 4).toNat * 10 ≤ 0xFF ∧
      ((b >>> 4) * 10).toNat + (b &&& 0x0F).toNat ≤ 0xFF := by
    revert b
    refine forall_byte ?_
    decide +kernel
  unfold ofDigits
  rw [mul, if_pos (by exact fits.1), ok_bind, add, if_pos fits.2]
  rfl

theorem tickHour_eq (hours : UInt8) : tickHour hours = .ok (Rtc.tickHour hours) := by
  unfold tickHour Rtc.tickHour
  simp only [ofDigits_eq, ok_bind, add_one (ofDigits_le _)]
  split
  · split
    · rfl
    · split <;> rfl
  · split <;> rfl

theorem tickDay_eq (r : Registers) : tickDay r = .ok r.tickDay := by
  have day : (r.day &&& 0x07) % 7 ≤ 165 := by grind
  unfold tickDay Registers.tickDay
  simp only [ofDigits_eq, ok_bind, add_one day, add_one (ofDigits_le _)]
  split
  · rfl
  · split <;> rfl

/-- No sum and no product of a second leaves a byte. -/
theorem tick_eq (r : Registers) : tick r = .ok r.tick := by
  unfold tick Registers.tick
  simp only [ofDigits_eq, ok_bind, add_one (ofDigits_le _), tickHour_eq, tickDay_eq]
  split
  · rfl
  · split
    · rfl
    · split <;> rfl

end Checked

/-! ## Every second -/

theorem tick_seconds (r : Registers) : InDigits 0 59 (r.tick.seconds &&& 0x7F) := by
  have fits : (if r.endsMinute then 0 else r.time.seconds + 1) ≤ 59 := by
    unfold Registers.endsMinute
    grind
  rw [Registers.tick_eq]
  show InDigits 0 59 ((r.seconds &&& haltBit ||| toDigits _) &&& 0x7F)
  rw [(halt_or_digits r.seconds (by grind)).1]
  exact inDigits_toDigits (by grind) (by grind) fits

theorem tick_date (r : Registers) (ends : r.endsDay) :
    InDigits 1 (daysInMonth r.tick.time.month r.tick.time.year) r.tick.date := by
  have bounds := daysInMonth_bounds r.tick.time.month r.tick.time.year
  by_cases hmonth : r.endsMonth
  · have first : r.tick.date = toDigits 1 := by simp [Registers.tick_eq, ends, hmonth]
    rw [first]
    exact inDigits_toDigits (by decide) (by decide) (by grind)
  · -- Month and year stay, so that the length of the month is the one that was asked.
    have same : r.tick.time.month = r.time.month ∧ r.tick.time.year = r.time.year := by
      simp [Registers.time, Registers.tick_eq, Registers.endsYear, hmonth]
    have next : r.tick.date = toDigits (r.time.date + 1) := by
      simp [Registers.tick_eq, ends, hmonth]
    have before : r.time.date < daysInMonth r.time.month r.time.year := by
      simpa [Registers.endsMonth, Registers.lastDate, ends] using hmonth
    rw [same.1, same.2] at bounds ⊢
    rw [next]
    exact inDigits_toDigits (by grind) (by grind) (by grind)

/-- A second comes out well on all registers, whatever they hold. What it counts up or carries into
is in its range afterwards, an hour above twelve in the form from one to twelve apart. -/
theorem tick_carries (r : Registers) : Checked.tick r = .ok r.tick ∧ r.Carries r.tick := by
  refine ⟨Checked.tick_eq r, ?_⟩
  exact
    { seconds := tick_seconds r
      halted := r.tick_halted
      minutes := by
        rw [Registers.tick_eq]
        split
        · have fits : (if r.endsHour then 0 else r.time.minutes + 1) ≤ 59 := by
            unfold Registers.endsHour
            grind
          exact inDigits_toDigits (by grind) (by grind) fits
        · rfl
      hours := by
        rw [Registers.tick_eq]
        split
        · exact tickHour_follows r.hours
        · rfl
      day := by
        rw [Registers.tick_eq]
        split
        · exact inDigits_day _
        · rfl
      date := by
        split
        · next ends => exact tick_date r ends
        · next stays => rw [Registers.tick_eq, if_neg stays]
      month := by
        rw [Registers.tick_eq]
        split
        · have fits : 1 ≤ (if r.endsYear then 1 else r.time.month + 1) ∧
              (if r.endsYear then 1 else r.time.month + 1) ≤ 12 := by
            unfold Registers.endsYear
            grind
          exact inDigits_toDigits (by grind) fits.1 fits.2
        · rfl
      year := by
        rw [Registers.tick_eq]
        split
        · exact inDigits_toDigits (by grind) (by grind) (by grind)
        · rfl
      control := by rw [Registers.tick_eq]
      trickle := by rw [Registers.tick_eq] }

/-- Nineteen at night is no hour of the form from one to twelve. It is counted on to no hour at all,
in the afternoon. -/
theorem hours_past_twelve_spill :
    let r : Registers := ⟨0x59, 0x59, 0x99, 0x01, 0x01, 0x07, 0x00, 0x00, 0x00⟩
    r.endsHour ∧ r.tick.hours = 0xA0 ∧ ¬HoursFollow r.hours r.tick.hours := by
  decide

end C64.Rtc
