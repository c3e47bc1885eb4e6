import C64.Byte
import C64.Cycle

/-!
# Interval timers

A sixteen-bit counter with a latch that it is loaded from and a control register. While the
timer counts cycles, its counter is not kept here but follows from the alarm set for its
underflow.
-/

namespace C64.Cia

/-- One of the two timers. -/
inductive TimerId where
  | a | b
deriving DecidableEq

/-- An interval timer. -/
structure Timer where
  /-- The counter as long as no alarm is set for the timer. -/
  counter : UInt16
  latch : UInt16
  control : UInt8
deriving DecidableEq

/-! ## The bits of the control registers -/

namespace Control

def start : UInt8 := 0x01
def oneShot : UInt8 := 0x08
def forceLoad : UInt8 := 0x10

/-- Timer A counts pulses at a pin, not cycles. -/
def countPulses : UInt8 := 0x20

/-- The serial port sends. -/
def serialOut : UInt8 := 0x40

/-- The clock's pin is fed with fifty pulses a second. -/
def fiftyHertz : UInt8 := 0x80

/-- What timer B counts: cycles, pulses, or underflows of timer A. -/
def inputMode : UInt8 := 0x60

/-- Timer B counts underflows of timer A. -/
def countUnderflows : UInt8 := 0x40

/-- A write to the clock sets the alarm time. -/
def setAlarmTime : UInt8 := 0x80

/-- Whether a control value lets a timer count cycles, so that an alarm stands for it. -/
def countsCycles (timer : TimerId) (control : UInt8) : Bool :=
  let source := match timer with
    | .a => countPulses
    | .b => inputMode
  anyBit control start && !anyBit control source

end Control

namespace Timer

/-- A timer that was never written to. -/
def initial : Timer := ⟨0xFFFF, 0xFFFF, 0⟩

def started (t : Timer) : Bool := anyBit t.control Control.start

def oneShot (t : Timer) : Bool := anyBit t.control Control.oneShot

/-- The timer with the low byte of its latch replaced. -/
def writeLow (t : Timer) (b : UInt8) : Timer := { t with latch := wordOf (highByte t.latch) b }

/-- The timer with the high byte of its latch replaced. A timer that stands still is loaded. -/
def writeHigh (t : Timer) (b : UInt8) : Timer :=
  let latch := wordOf b (lowByte t.latch)
  if t.started then { t with latch } else { t with latch, counter := latch }

/-- The timer after an underflow: loaded, and stopped if it was to run once. -/
def underflow (t : Timer) : Timer :=
  { t with
    counter := t.latch
    control := if t.oneShot then t.control &&& ~~~Control.start else t.control }

/-- The counter of a timer that underflows in `remaining` cycles. -/
def counterBefore (remaining : Nat) : UInt16 := (min (remaining - 1) 0xFFFF).toUInt16

end Timer

end C64.Cia
