import C64.Digit

/-!
# The calendar

Nine registers hold the time in pairs of decimal digits, the hours in one of two forms, and two
switches. `Registers.tick` adds a second; what a program has written out of range carries at
the next increment.
-/

namespace C64.Rtc

/-- A time in plain numbers, the hours from zero to twenty-three. -/
structure Time where
  /-- Years since 2000. -/
  year : UInt8
  month : UInt8
  date : UInt8
  /-- The day of the week, from one to seven. -/
  day : UInt8
  hours : UInt8
  minutes : UInt8
  seconds : UInt8
deriving DecidableEq

namespace Time

/-- Midnight on Saturday, the first of January 2000. -/
def initial : Time := ⟨0, 1, 1, 7, 0, 0, 0⟩

end Time

/-- The number of days of a month. Years count from 2000, so every fourth is a leap year. -/
def daysInMonth (month year : UInt8) : UInt8 :=
  if month = 2 then if year % 4 = 0 then 29 else 28
  else if month = 4 ∨ month = 6 ∨ month = 9 ∨ month = 11 then 30
  else 31

/-- Why a chip cannot be built. -/
inductive ConfigError where
  | zeroRate
  /-- A field of the start time is out of range. -/
  | invalidTime (field : String) (value : UInt8)
deriving DecidableEq

namespace ConfigError

/-- The sentence that describes the error. -/
def message : ConfigError → String
  | zeroRate => "RTC tick rate must be at least one cycle per second"
  | invalidTime field value =>
    s!"RTC start time has {field} = {value.toNat}, which is out of range"

end ConfigError

namespace Time

/-- The fields of a time with their names and their least and greatest values, in the order in
which they are checked. -/
def ranges (t : Time) : List (String × UInt8 × UInt8 × UInt8) := [
  ("year", t.year, 0, 99),
  ("month", t.month, 1, 12),
  ("date", t.date, 1, daysInMonth t.month t.year),
  ("day", t.day, 1, 7),
  ("hours", t.hours, 0, 23),
  ("minutes", t.minutes, 0, 59),
  ("seconds", t.seconds, 0, 59)]

/-- The first field out of range. -/
def error? (t : Time) : Option ConfigError :=
  t.ranges.findSome? fun (field, value, least, greatest) =>
    if least ≤ value ∧ value ≤ greatest then none else some (.invalidTime field value)

end Time

/-! ## The registers -/

/-- The bit of the seconds that halts the clock. -/
def haltBit : UInt8 := 0x80

/-- The bit of the hours that asks for the form from one to twelve. -/
def twelveHourBit : UInt8 := 0x80

/-- The bit of the hours that tells the afternoon, in the form from one to twelve. -/
def afternoonBit : UInt8 := 0x20

/-- The bit of the control register that protects all other registers and the memory. -/
def protectBit : UInt8 := 0x80

/-- The registers in the order of their numbers. -/
structure Registers where
  seconds : UInt8
  minutes : UInt8
  hours : UInt8
  date : UInt8
  month : UInt8
  day : UInt8
  year : UInt8
  control : UInt8
  trickle : UInt8
deriving DecidableEq

/-- The hours register an hour later, and whether a new day begins. -/
def tickHour (hours : UInt8) : UInt8 × Bool :=
  if anyBit hours twelveHourBit then
    let afternoon := hours &&& afternoonBit
    let hour := ofDigits (hours &&& 0x1F)
    if hour = 11 then
      (twelveHourBit ||| (afternoon ^^^ afternoonBit) ||| toDigits 12, afternoon != 0)
    else if hour = 12 then (twelveHourBit ||| afternoon ||| 0x01, false)
    else (twelveHourBit ||| afternoon ||| toDigits (hour + 1), false)
  else
    let next := ofDigits (hours &&& 0x3F) + 1
    if next < 24 then (toDigits next, false) else (0, true)

namespace Registers

/-- All registers zero. -/
def zero : Registers := ⟨0, 0, 0, 0, 0, 0, 0, 0, 0⟩

/-- The registers that hold a time, the hours in the form from zero to twenty-three. -/
def ofTime (t : Time) (halted : Bool) : Registers :=
  { seconds := toDigits t.seconds ||| (if halted then haltBit else 0)
    minutes := toDigits t.minutes
    hours := toDigits t.hours
    date := toDigits t.date
    month := toDigits t.month
    day := t.day
    year := toDigits t.year
    control := 0
    trickle := 0 }

/-- The hour from zero to twenty-three, in whichever form the register holds it. -/
def hour (r : Registers) : UInt8 :=
  if anyBit r.hours twelveHourBit then
    let hour := ofDigits (r.hours &&& 0x1F) % 12
    if anyBit r.hours afternoonBit then hour + 12 else hour
  else ofDigits (r.hours &&& 0x3F)

/-- The time that the registers hold. -/
def time (r : Registers) : Time :=
  { year := ofDigits r.year
    month := ofDigits (r.month &&& 0x1F)
    date := ofDigits (r.date &&& 0x3F)
    day := r.day &&& 0x07
    hours := r.hour
    minutes := ofDigits (r.minutes &&& 0x7F)
    seconds := ofDigits (r.seconds &&& 0x7F) }

/-- Whether the clock stands still. -/
def halted (r : Registers) : Bool := anyBit r.seconds haltBit

/-- Whether only the control register can be written. -/
def writeProtected (r : Registers) : Bool := anyBit r.control protectBit

/-- The next day: the days of the week go round, the date carries into month and year. -/
def tickDay (r : Registers) : Registers :=
  let day := (r.day &&& 0x07) % 7 + 1
  let year := ofDigits r.year
  let month := ofDigits (r.month &&& 0x1F)
  let date := ofDigits (r.date &&& 0x3F) + 1
  if date ≤ daysInMonth month year then { r with day, date := toDigits date }
  else if month < 12 then { r with day, date := 0x01, month := toDigits (month + 1) }
  else { r with day, date := 0x01, month := 0x01, year := toDigits ((year + 1) % 100) }

/-- One second later. -/
def tick (r : Registers) : Registers :=
  let seconds := ofDigits (r.seconds &&& 0x7F) + 1
  let halt := r.seconds &&& haltBit
  if seconds < 60 then { r with seconds := halt ||| toDigits seconds }
  else
    let minutes := ofDigits (r.minutes &&& 0x7F) + 1
    if minutes < 60 then { r with seconds := halt, minutes := toDigits minutes }
    else
      let (hours, newDay) := tickHour r.hours
      let r := { r with seconds := halt, minutes := 0, hours }
      if newDay then r.tickDay else r

/-- The register with a number. -/
def get? (r : Registers) : Nat → Option UInt8
  | 0 => some r.seconds
  | 1 => some r.minutes
  | 2 => some r.hours
  | 3 => some r.date
  | 4 => some r.month
  | 5 => some r.day
  | 6 => some r.year
  | 7 => some r.control
  | 8 => some r.trickle
  | _ => none

/-- The registers with one of them replaced; a number without a register changes none. -/
def set (r : Registers) (index : Nat) (b : UInt8) : Registers :=
  match index with
  | 0 => { r with seconds := b }
  | 1 => { r with minutes := b }
  | 2 => { r with hours := b }
  | 3 => { r with date := b }
  | 4 => { r with month := b }
  | 5 => { r with day := b }
  | 6 => { r with year := b }
  | 7 => { r with control := b }
  | 8 => { r with trickle := b }
  | _ => r

/-- The registers in the order of their numbers. -/
def toList (r : Registers) : List UInt8 :=
  [r.seconds, r.minutes, r.hours, r.date, r.month, r.day, r.year, r.control, r.trickle]

theorem get?_set (r : Registers) {i : Nat} (h : i < 9) (j : Nat) (b : UInt8) :
    (r.set i b).get? j = if i = j then some b else r.get? j := by
  match i, h with
  | 0, _ | 1, _ | 2, _ | 3, _ | 4, _ | 5, _ | 6, _ | 7, _ | 8, _ =>
    match j with
    | 0 | 1 | 2 | 3 | 4 | 5 | 6 | 7 | 8 | _ + 9 => rfl

end Registers

end C64.Rtc
