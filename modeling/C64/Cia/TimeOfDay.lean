import C64.Digit
import C64.Text.Hex

/-!
# The time of day

A clock of tenths, seconds, minutes and hours in decimal digits. The hours run from one to
twelve; their highest bit tells the afternoon.
-/

namespace C64.Cia

/-- The four numbers of the clock, as the registers hold them. -/
structure TimeOfDay where
  tenths : UInt8
  seconds : UInt8
  minutes : UInt8
  hours : UInt8
deriving DecidableEq

/-- One of the four numbers of the clock. -/
inductive TimePart where
  | tenths | seconds | minutes | hours
deriving DecidableEq

namespace TimePart

/-- The bits of the part that a write can set. -/
def writable : TimePart → UInt8
  | tenths => 0x0F
  | seconds | minutes => 0x7F
  | hours => 0x9F

end TimePart

/-- The hour behind `hours`: twelve follows eleven and changes the half of the day, one follows
twelve. -/
def nextHour (hours : UInt8) : UInt8 :=
  let afternoon := hours &&& 0x80
  let hour := hours &&& 0x1F
  if hour = 0x11 then 0x12 ||| (afternoon ^^^ 0x80)
  else if hour = 0x12 then 0x01 ||| afternoon
  else nextDigits hour 0x13 ||| afternoon

namespace TimeOfDay

/-- One part of the time. -/
def get (t : TimeOfDay) : TimePart → UInt8
  | .tenths => t.tenths
  | .seconds => t.seconds
  | .minutes => t.minutes
  | .hours => t.hours

/-- The time with one part replaced. -/
def set (t : TimeOfDay) (part : TimePart) (b : UInt8) : TimeOfDay :=
  match part with
  | .tenths => { t with tenths := b }
  | .seconds => { t with seconds := b }
  | .minutes => { t with minutes := b }
  | .hours => { t with hours := b }

theorem get_set (t : TimeOfDay) (part other : TimePart) (b : UInt8) :
    (t.set part b).get other = if part = other then b else t.get other := by
  cases part <;> cases other <;> rfl

/-- The time a tenth of a second later. -/
def next (t : TimeOfDay) : TimeOfDay :=
  let tenths := (t.tenths + 1) % 10
  if tenths ≠ 0 then { t with tenths }
  else
    let seconds := nextDigits t.seconds 0x60
    if seconds ≠ 0 then { t with tenths, seconds }
    else
      let minutes := nextDigits t.minutes 0x60
      if minutes ≠ 0 then { t with tenths, seconds, minutes }
      else ⟨tenths, seconds, minutes, nextHour t.hours⟩

/-- The digits of the time behind a byte for the hours. -/
def digits (t : TimeOfDay) (hours : UInt8) : String :=
  let two (b : UInt8) := Text.zeroPad 2 (Text.hexUpper b.toNat)
  s!"{two hours}:{two t.minutes}:{two t.seconds}.{Text.hexUpper t.tenths.toNat}"

/-- The time as a clock shows it, with the half of the day. -/
def render (t : TimeOfDay) : String :=
  t.digits (t.hours &&& 0x1F) ++ (if anyBit t.hours 0x80 then " PM" else " AM")

end TimeOfDay

end C64.Cia
