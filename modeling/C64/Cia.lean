import C64.Cia.TimeOfDay
import C64.Cia.Timer
import C64.Clock
import C64.Inspect

/-!
# The complex interface adapter

A chip with two ports, two interval timers, a time of day with an alarm time, a serial register
and an interrupt controller.

A running timer owns an alarm of the machine clock for the cycle of its underflow. One that
runs on sets the next alarm from the cycle of the last, so that an advance over many cycles
sees every underflow at its own cycle. The chip's events reach the clock under names of the
machine's choosing: most functions take the map `event` from the one to the other.

| Register | Read                     | Written                     |
|----------|--------------------------|-----------------------------|
| 0, 1     | the pins of both ports   | output of both ports        |
| 2, 3     | directions of both ports | the same                    |
| 4 to 7   | counters of both timers  | latches of both timers      |
| 8 to 11  | time of day              | time of day, or alarm time  |
| 12       | serial register          | the same                    |
| 13       | interrupt sources, clears| interrupt mask              |
| 14, 15   | control of both timers   | the same                    |
-/

namespace C64

open Cia

/-- What does not change while the machine runs. -/
structure Cia.Config where
  /-- Processor cycles in a second. -/
  cpuHz : Nat := 985248
  /-- Pulses a second at the pin of the time of day. -/
  todHz : Nat := 50
deriving DecidableEq

/-- The alarms of the chip. -/
inductive Cia.Event where
  | timer (t : TimerId)
  | tod
deriving DecidableEq

namespace Cia.Event

/-- The name of the event in a message. -/
def name : Cia.Event → String
  | .timer .a => "TimerA"
  | .timer .b => "TimerB"
  | .tod => "Tod"

instance : ToString Cia.Event := ⟨name⟩

end Cia.Event

/-! ## The sources of interrupts, as bits -/

namespace Cia.Source

def timer : TimerId → UInt8
  | .a => 0x01
  | .b => 0x02
def timeOfDay : UInt8 := 0x04
def serial : UInt8 := 0x08
def flagPin : UInt8 := 0x10

end Cia.Source

/-- The state of the chip. -/
structure Cia where
  config : Config
  portA : UInt8
  portB : UInt8
  /-- The bits of port A that are outputs. -/
  directionA : UInt8
  directionB : UInt8
  /-- What the world outside drives onto the pins of port A. -/
  inputA : UInt8
  inputB : UInt8
  timerA : Timer
  timerB : Timer
  /-- The interrupt sources that fired since they were last read. -/
  sources : UInt8
  /-- The interrupt sources that reach the interrupt line. -/
  mask : UInt8
  serial : UInt8
  tod : TimeOfDay
  todAlarm : TimeOfDay
  /-- The time held still since the hours were read, until the tenths are. -/
  todHeld : Option TimeOfDay
  /-- Set by writing the hours, cleared by writing the tenths. -/
  todStopped : Bool
deriving DecidableEq

namespace Cia

variable {ε : Type} [DecidableEq ε] (event : Event → ε)

/-- One of the timers. -/
def timer (c : Cia) : TimerId → Timer
  | .a => c.timerA
  | .b => c.timerB

/-- The chip with one timer replaced. -/
def withTimer (c : Cia) (which : TimerId) (t : Timer) : Cia :=
  match which with
  | .a => { c with timerA := t }
  | .b => { c with timerB := t }

/-- The chip with interrupt sources added. -/
def raise (c : Cia) (source : UInt8) : Cia := { c with sources := c.sources ||| source }

/-- Whether the chip holds its interrupt line. -/
def interrupting (c : Cia) : Bool := anyBit (c.sources &&& c.mask) 0x1F

/-- The levels at the pins of port A: the output where the chip drives, else the input. -/
def pinsA (c : Cia) : UInt8 := c.portA &&& c.directionA ||| c.inputA &&& ~~~c.directionA

/-- The levels at the pins of port B. -/
def pinsB (c : Cia) : UInt8 := c.portB &&& c.directionB ||| c.inputB &&& ~~~c.directionB

/-- A falling edge at the flag pin. -/
def flagEdge (c : Cia) : Cia := c.raise Source.flagPin

/-- The sources with the state of the interrupt line in the highest bit. -/
def interruptByte (c : Cia) : UInt8 := c.sources ||| (if c.interrupting then 0x80 else 0)

/-! ## The time of day -/

/-- Cycles from one tenth of a second to the next. -/
def todInterval (c : Cia) : Except Fault Nat := do
  let pulses := if anyBit c.timerA.control Control.fiftyHertz then 5 else 6
  return max (← Cycle.mul (c.config.cpuHz / max c.config.todHz 1) pulses) 1

/-- Sets the alarm for the next tenth of a second. -/
def scheduleTod [ToString ε] (c : Cia) (clock : Clock ε) : Except Fault (Clock ε) := do
  return (← clock.setAlarmIn (← c.todInterval) (event .tod)).2

/-- A tenth of a second passes. -/
def advanceTod (c : Cia) : Cia :=
  let tod := c.tod.next
  let c := { c with tod }
  if tod = c.todAlarm then c.raise Source.timeOfDay else c

/-- The time that a program reads. -/
def todShown (c : Cia) : TimeOfDay := c.todHeld.getD c.tod

/-- Writes a part of the time or of the alarm time. -/
def writeTod (c : Cia) (part : TimePart) (b : UInt8) : Cia :=
  let b := b &&& part.writable
  if anyBit c.timerB.control Control.setAlarmTime then { c with todAlarm := c.todAlarm.set part b }
  else
    let todStopped := match part with
      | .hours => true
      | .tenths => false
      | _ => c.todStopped
    { c with tod := c.tod.set part b, todStopped }

/-! ## The timers -/

/-- The counter of a timer. -/
def counter (c : Cia) (clock : Clock ε) (which : TimerId) : UInt16 :=
  match clock.cyclesUntil? (event (.timer which)) with
  | some remaining => Timer.counterBefore remaining
  | none => (c.timer which).counter

/-- Takes a timer's alarm away and keeps the counter it had reached. -/
def freeze (c : Cia) (clock : Clock ε) (which : TimerId) : Cia × Clock ε :=
  (c.withTimer which { c.timer which with counter := c.counter event clock which },
    clock.cancel (event (.timer which)))

/-- Writes the control register of a timer. -/
def writeControl [ToString ε] (c : Cia) (clock : Clock ε) (which : TimerId) (b : UInt8) :
    Except Fault (Cia × Clock ε) := do
  let rateChanged := which = .a ∧ anyBit (c.timerA.control ^^^ b) Control.fiftyHertz
  let (c, clock) := c.freeze event clock which
  let t := { c.timer which with control := b }
  let t := if anyBit b Control.forceLoad then { t with counter := t.latch } else t
  let c := c.withTimer which t
  let clock ←
    if Control.countsCycles which b then do
      pure (← clock.setAlarmIn (t.counter.toNat + 1) (event (.timer which))).2
    else pure clock
  let clock ← if rateChanged then c.scheduleTod event clock else pure clock
  return (c, clock)

/-- A timer's alarm fires: the timer underflows, and one that runs on sets its next alarm. -/
def underflow (c : Cia) (clock : Clock ε) (which : TimerId) (due : Nat) :
    Except Fault (Cia × Clock ε) := do
  let t := c.timer which
  let c := (c.raise (Source.timer which)).withTimer which t.underflow
  if t.oneShot then return (c, clock)
  else return (c, clock.setAlarm (← Cycle.add due (t.latch.toNat + 1)) (event (.timer which)))

/-- Whether timer B counts the underflows of timer A. -/
def chained (c : Cia) : Bool :=
  c.timerB.started && c.timerB.control &&& Control.inputMode = Control.countUnderflows

/-- Timer B counts one underflow of timer A. -/
def countUnderflow (c : Cia) : Cia :=
  if c.timerB.counter = 0 then
    { c.raise (Source.timer .b) with timerB := c.timerB.underflow }
  else { c with timerB.counter := c.timerB.counter - 1 }

/-! ## The chip as a whole -/

/-- The chip after power-on, without its alarm. -/
def powerOn (config : Config) : Cia :=
  { config
    portA := 0, portB := 0
    directionA := 0, directionB := 0
    inputA := 0xFF, inputB := 0xFF
    timerA := .initial, timerB := .initial
    sources := 0, mask := 0
    serial := 0
    tod := ⟨0, 0, 0, 0x01⟩
    todAlarm := ⟨0, 0, 0, 0⟩
    todHeld := none
    todStopped := false }

/-- A chip after power-on; its time of day runs. -/
def new [ToString ε] (config : Config) (clock : Clock ε) : Except Fault (Cia × Clock ε) := do
  let c := powerOn config
  return (c, ← c.scheduleTod event clock)

/-- Brings every register back to its power-on value and starts the time of day again. -/
def reset [ToString ε] (c : Cia) (clock : Clock ε) : Except Fault (Cia × Clock ε) :=
  let clock := clock.cancel (event (.timer .a))
  let clock := clock.cancel (event (.timer .b))
  new event c.config (clock.cancel (event .tod))

/-- What a register shows. -/
def peek (c : Cia) (clock : Clock ε) (register : UInt8) : UInt8 :=
  match (register &&& 0x0F).toNat with
  | 0x0 => c.pinsA
  | 0x1 => c.pinsB
  | 0x2 => c.directionA
  | 0x3 => c.directionB
  | 0x4 => lowByte (c.counter event clock .a)
  | 0x5 => highByte (c.counter event clock .a)
  | 0x6 => lowByte (c.counter event clock .b)
  | 0x7 => highByte (c.counter event clock .b)
  | 0x8 => c.todShown.tenths
  | 0x9 => c.todShown.seconds
  | 0xA => c.todShown.minutes
  | 0xB => c.todShown.hours
  | 0xC => c.serial
  | 0xD => c.interruptByte
  | 0xE => c.timerA.control &&& ~~~Control.forceLoad
  | _ => c.timerB.control &&& ~~~Control.forceLoad

/-- Reads a register. The tenths let the time go on, the hours hold it still, the interrupt
sources are cleared. -/
def read (c : Cia) (clock : Clock ε) (register : UInt8) : UInt8 × Cia :=
  let shown := c.peek event clock register
  match (register &&& 0x0F).toNat with
  | 0x8 => (shown, { c with todHeld := none })
  | 0xB => (shown, { c with todHeld := some c.todShown })
  | 0xD => (shown, { c with sources := 0 })
  | _ => (shown, c)

/-- Writes a register. -/
def write [ToString ε] (c : Cia) (clock : Clock ε) (register b : UInt8) :
    Except Fault (Cia × Clock ε) :=
  match (register &&& 0x0F).toNat with
  | 0x0 => .ok ({ c with portA := b }, clock)
  | 0x1 => .ok ({ c with portB := b }, clock)
  | 0x2 => .ok ({ c with directionA := b }, clock)
  | 0x3 => .ok ({ c with directionB := b }, clock)
  | 0x4 => .ok ({ c with timerA := c.timerA.writeLow b }, clock)
  | 0x5 => .ok ({ c with timerA := c.timerA.writeHigh b }, clock)
  | 0x6 => .ok ({ c with timerB := c.timerB.writeLow b }, clock)
  | 0x7 => .ok ({ c with timerB := c.timerB.writeHigh b }, clock)
  | 0x8 => .ok (c.writeTod .tenths b, clock)
  | 0x9 => .ok (c.writeTod .seconds b, clock)
  | 0xA => .ok (c.writeTod .minutes b, clock)
  | 0xB => .ok (c.writeTod .hours b, clock)
  | 0xC =>
    -- A byte that is sent is gone at once.
    let c := { c with serial := b }
    .ok (if anyBit c.timerA.control Control.serialOut then c.raise Source.serial else c, clock)
  | 0xD => .ok ({ c with mask := withBits c.mask (b &&& 0x1F) (anyBit b 0x80) }, clock)
  | 0xE => c.writeControl event clock .a b
  | _ => c.writeControl event clock .b b

/-- Handles an alarm of the chip that was set for cycle `due`. -/
def onAlarm (c : Cia) (clock : Clock ε) (which : Event) (due : Nat) :
    Except Fault (Cia × Clock ε) := do
  match which with
  | .timer .a =>
    let (c, clock) ← c.underflow event clock .a due
    return (if c.chained then c.countUnderflow else c, clock)
  | .timer .b => c.underflow event clock .b due
  | .tod =>
    let c := if c.todStopped then c else c.advanceTod
    return (c, clock.setAlarm (← Cycle.add due (← c.todInterval)) (event .tod))

/-- What can be asked of the chip. -/
def probes : List (Probe Cia) := [
  ⟨"port_a", fun c => .byte c.pinsA⟩,
  ⟨"port_b", fun c => .byte c.pinsB⟩,
  ⟨"ddr_a", fun c => .byte c.directionA⟩,
  ⟨"ddr_b", fun c => .byte c.directionB⟩,
  ⟨"timer_a.latch", fun c => .word c.timerA.latch⟩,
  ⟨"timer_a.control", fun c => .byte c.timerA.control⟩,
  ⟨"timer_b.latch", fun c => .word c.timerB.latch⟩,
  ⟨"timer_b.control", fun c => .byte c.timerB.control⟩,
  ⟨"icr.status", fun c => .byte c.sources⟩,
  ⟨"icr.mask", fun c => .byte c.mask⟩,
  ⟨"irq", fun c => .flag c.interrupting⟩,
  ⟨"tod", fun c => .text c.tod.render⟩]

end Cia

end C64
