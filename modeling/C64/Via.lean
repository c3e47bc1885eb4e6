import C64.Byte
import C64.Clock
import C64.Inspect

/-!
# The versatile interface adapter

A chip with two ports, two timers, a shift register and an interrupt controller.

Once started, each timer owns an alarm of the machine clock for its next time-out. Timer 1
counts down to zero, shows `$FFFF` for one cycle and is loaded again; run once, only its first
time-out interrupts. Timer 2 counts on below zero, or counts pulses at a pin and then owns no
alarm.

| Register | Read                        | Written                               |
|----------|-----------------------------|---------------------------------------|
| 0, 1     | the pins of ports B and A   | output of ports B and A               |
| 2, 3     | directions of ports B and A | the same                              |
| 4, 5     | counter of timer 1          | latch; the high byte starts the timer |
| 6, 7     | latch of timer 1            | the same                              |
| 8, 9     | counter of timer 2          | counter; the high byte starts it      |
| 10       | shift register              | the same                              |
| 11, 12   | control of timers and pins  | the same                              |
| 13       | interrupt flags             | interrupt flags to clear              |
| 14       | enabled interrupts          | interrupts to enable or disable       |
| 15       | the pins of port A          | output of port A                      |
-/

namespace C64

/-- The alarms of the chip. -/
inductive Via.Event where
  | timer1 | timer2
deriving DecidableEq

namespace Via.Event

/-- The name of the event in a message. -/
def name : Via.Event → String
  | .timer1 => "Timer1"
  | .timer2 => "Timer2"

instance : ToString Via.Event := ⟨name⟩

end Via.Event

/-! ## The interrupt flags, as bits -/

namespace Via.Flag

def ca2 : UInt8 := 0x01
def ca1 : UInt8 := 0x02
def shift : UInt8 := 0x04
def cb2 : UInt8 := 0x08
def cb1 : UInt8 := 0x10
def timer2 : UInt8 := 0x20
def timer1 : UInt8 := 0x40

end Via.Flag

/-! ## The bits of the auxiliary control register -/

namespace Via.Control

/-- Timer 2 counts pulses, not cycles. -/
def countPulses : UInt8 := 0x20

/-- Timer 1 interrupts at every time-out. -/
def freeRun : UInt8 := 0x40

/-- Timer 1 drives the highest pin of port B. -/
def timerOutput : UInt8 := 0x80

end Via.Control

/-- The state of the chip. -/
structure Via where
  portA : UInt8
  portB : UInt8
  /-- The bits of port A that are outputs. -/
  directionA : UInt8
  directionB : UInt8
  /-- What the world outside drives onto the pins of port A. -/
  inputA : UInt8
  inputB : UInt8
  /-- The counter of timer 1 before it is first started. -/
  counter1 : UInt16
  latch1 : UInt16
  /-- Whether the next time-out of timer 1 interrupts. -/
  armed1 : Bool
  /-- What timer 1 puts out. -/
  output1 : Bool
  /-- The counter of timer 2 as long as no alarm is set for it. -/
  counter2 : UInt16
  latch2 : UInt8
  armed2 : Bool
  shift : UInt8
  /-- The auxiliary control register. -/
  control : UInt8
  /-- The register that selects the edges of the control pins. -/
  pinControl : UInt8
  flags : UInt8
  enabled : UInt8
  /-- The last levels of two control pins. -/
  ca1 : Bool
  cb1 : Bool
deriving DecidableEq

namespace Via

variable {ε : Type} [DecidableEq ε] (event : Event → ε)

/-- The chip after power-on. -/
def initial : Via :=
  { portA := 0, portB := 0
    directionA := 0, directionB := 0
    inputA := 0xFF, inputB := 0xFF
    counter1 := 0xFFFF, latch1 := 0xFFFF, armed1 := false, output1 := false
    counter2 := 0xFFFF, latch2 := 0xFF, armed2 := false
    shift := 0
    control := 0, pinControl := 0
    flags := 0, enabled := 0
    ca1 := false, cb1 := false }

/-- The chip after power-on, both of its alarms taken away. -/
def reset (clock : Clock ε) : Via × Clock ε :=
  (initial, (clock.cancel (event .timer1)).cancel (event .timer2))

/-- Whether the chip holds its interrupt line. -/
def interrupting (v : Via) : Bool := anyBit (v.flags &&& v.enabled) 0x7F

/-- The chip with interrupt flags set. -/
def raise (v : Via) (flag : UInt8) : Via := { v with flags := v.flags ||| flag }

/-- The chip with interrupt flags cleared. -/
def clear (v : Via) (flags : UInt8) : Via := { v with flags := v.flags &&& ~~~flags }

/-! ## Ports and pins -/

/-- A port B value with its highest bit from timer 1, if that drives it. -/
def withTimerOutput (v : Via) (b : UInt8) : UInt8 :=
  if anyBit v.control Control.timerOutput then b &&& 0x7F ||| (if v.output1 then 0x80 else 0)
  else b

/-- What the chip drives onto port A. -/
def outputA (v : Via) : UInt8 := v.portA &&& v.directionA

/-- What the chip drives onto port B. -/
def outputB (v : Via) : UInt8 := v.withTimerOutput (v.portB &&& v.directionB)

/-- The levels at the pins of port A. -/
def pinsA (v : Via) : UInt8 := v.portA &&& v.directionA ||| v.inputA &&& ~~~v.directionA

/-- The levels at the pins of port B. -/
def pinsB (v : Via) : UInt8 :=
  v.withTimerOutput (v.portB &&& v.directionB ||| v.inputB &&& ~~~v.directionB)

/-- Whether a pin that goes from one level to another makes the edge that counts. -/
def isEdge (rising before after : Bool) : Bool :=
  if rising then !before && after else before && !after

/-- Sets the level of control pin CA1. -/
def setCa1 (v : Via) (level : Bool) : Via :=
  let seen := isEdge (anyBit v.pinControl 0x01) v.ca1 level
  { (if seen then v.raise Flag.ca1 else v) with ca1 := level }

/-- Sets the level of control pin CB1. -/
def setCb1 (v : Via) (level : Bool) : Via :=
  let seen := isEdge (anyBit v.pinControl 0x10) v.cb1 level
  { (if seen then v.raise Flag.cb1 else v) with cb1 := level }

/-! ## The timers -/

/-- Whether timer 2 counts pulses. -/
def countsPulses (v : Via) : Bool := anyBit v.control Control.countPulses

/-- The counter of timer 1. In the cycle between time-out and reload it shows `$FFFF`. -/
def timer1 (v : Via) (clock : Clock ε) : UInt16 :=
  match clock.cyclesUntil? (event .timer1) with
  | some remaining =>
    if remaining = v.latch1.toNat + 2 then 0xFFFF else (min (remaining - 1) 0xFFFF).toUInt16
  | none => v.counter1

/-- The counter of timer 2. -/
def timer2 (v : Via) (clock : Clock ε) : UInt16 :=
  match clock.cyclesUntil? (event .timer2) with
  | some remaining => (min (remaining - 1) 0xFFFF).toUInt16
  | none => v.counter2

/-- Timer 2 starts to count cycles from its counter. -/
def runTimer2 [ToString ε] (v : Via) (clock : Clock ε) : Except Fault (Clock ε) := do
  return (← clock.setAlarmIn (v.counter2.toNat + 1) (event .timer2)).2

/-- Loads timer 1 with a new high byte and starts it. -/
def startTimer1 [ToString ε] (v : Via) (clock : Clock ε) (high : UInt8) :
    Except Fault (Via × Clock ε) := do
  let latch := wordOf high (lowByte v.latch1)
  let v := { v.clear Flag.timer1 with
    latch1 := latch, counter1 := latch, armed1 := true, output1 := false }
  return (v, (← clock.setAlarmIn (latch.toNat + 1) (event .timer1)).2)

/-- Loads timer 2 with a new high byte and starts it. -/
def startTimer2 [ToString ε] (v : Via) (clock : Clock ε) (high : UInt8) :
    Except Fault (Via × Clock ε) := do
  let v := { v.clear Flag.timer2 with counter2 := wordOf high v.latch2, armed2 := true }
  return (v, ← if v.countsPulses then pure clock else v.runTimer2 event clock)

/-- Writes the auxiliary control register. When timer 2 starts to count pulses, it does so from
the counter it has, and the other way round. -/
def writeControl [ToString ε] (v : Via) (clock : Clock ε) (b : UInt8) :
    Except Fault (Via × Clock ε) := do
  let pulses := anyBit b Control.countPulses
  let changed := { v with control := b }
  if pulses && !v.countsPulses then
    return ({ changed with counter2 := v.timer2 event clock }, clock.cancel (event .timer2))
  else if !pulses && v.countsPulses then return (changed, ← v.runTimer2 event clock)
  else return (changed, clock)

/-- Timer 2 times out. -/
def timeOut2 (v : Via) : Via :=
  if v.armed2 then { v.raise Flag.timer2 with armed2 := false } else v

/-- A pulse at the pin that timer 2 can count. -/
def pulse (v : Via) : Via :=
  if !v.countsPulses then v
  else
    let v := { v with counter2 := v.counter2 - 1 }
    if v.counter2 = 0 then v.timeOut2 else v

/-- Timer 1 times out. -/
def timeOut1 (v : Via) : Via :=
  let freeRun := anyBit v.control Control.freeRun
  if v.armed1 then
    let v := { v.raise Flag.timer1 with armed1 := freeRun }
    if anyBit v.control Control.timerOutput then
      { v with output1 := if freeRun then !v.output1 else true }
    else v
  else if freeRun then { v with armed1 := true }
  else v

/-- Handles an alarm of the chip that was set for cycle `due`. -/
def onAlarm (v : Via) (clock : Clock ε) (which : Event) (due : Nat) :
    Except Fault (Via × Clock ε) := do
  match which with
  | .timer1 =>
    return (v.timeOut1, clock.setAlarm (← Cycle.add due (v.latch1.toNat + 2)) (event .timer1))
  | .timer2 =>
    return (v.timeOut2, clock.setAlarm (← Cycle.add due 0x10000) (event .timer2))

/-! ## Registers -/

/-- What a register shows. -/
def peek (v : Via) (clock : Clock ε) (register : UInt8) : UInt8 :=
  match (register &&& 0x0F).toNat with
  | 0x0 => v.pinsB
  | 0x1 => v.pinsA
  | 0x2 => v.directionB
  | 0x3 => v.directionA
  | 0x4 => lowByte (v.timer1 event clock)
  | 0x5 => highByte (v.timer1 event clock)
  | 0x6 => lowByte v.latch1
  | 0x7 => highByte v.latch1
  | 0x8 => lowByte (v.timer2 event clock)
  | 0x9 => highByte (v.timer2 event clock)
  | 0xA => v.shift
  | 0xB => v.control
  | 0xC => v.pinControl
  | 0xD => v.flags &&& 0x7F ||| (if v.interrupting then 0x80 else 0)
  | 0xE => v.enabled ||| 0x80
  | _ => v.pinsA

/-- The interrupt flags that a read of a register clears. -/
def clearedByRead (register : UInt8) : UInt8 :=
  match (register &&& 0x0F).toNat with
  | 0x0 => Flag.cb1 ||| Flag.cb2
  | 0x1 => Flag.ca1 ||| Flag.ca2
  | 0x4 => Flag.timer1
  | 0x8 => Flag.timer2
  | 0xA => Flag.shift
  | _ => 0

/-- Reads a register. -/
def read (v : Via) (clock : Clock ε) (register : UInt8) : UInt8 × Via :=
  (v.peek event clock register, v.clear (clearedByRead register))

/-- Writes a register. -/
def write [ToString ε] (v : Via) (clock : Clock ε) (register b : UInt8) :
    Except Fault (Via × Clock ε) :=
  match (register &&& 0x0F).toNat with
  | 0x0 => .ok ({ v.clear (Flag.cb1 ||| Flag.cb2) with portB := b }, clock)
  | 0x1 => .ok ({ v.clear (Flag.ca1 ||| Flag.ca2) with portA := b }, clock)
  | 0x2 => .ok ({ v with directionB := b }, clock)
  | 0x3 => .ok ({ v with directionA := b }, clock)
  | 0x4 | 0x6 => .ok ({ v with latch1 := wordOf (highByte v.latch1) b }, clock)
  | 0x5 => v.startTimer1 event clock b
  | 0x7 => .ok ({ v.clear Flag.timer1 with latch1 := wordOf b (lowByte v.latch1) }, clock)
  | 0x8 => .ok ({ v with latch2 := b }, clock)
  | 0x9 => v.startTimer2 event clock b
  | 0xA => .ok ({ v.clear Flag.shift with shift := b }, clock)
  | 0xB => v.writeControl event clock b
  | 0xC => .ok ({ v with pinControl := b }, clock)
  | 0xD => .ok (v.clear b, clock)
  | 0xE => .ok ({ v with enabled := withBits v.enabled (b &&& 0x7F) (anyBit b 0x80) }, clock)
  | _ => .ok ({ v with portA := b }, clock)

/-- What can be asked of the chip. -/
def probes : List (Probe Via) := [
  ⟨"port_a", fun v => .byte v.pinsA⟩,
  ⟨"port_b", fun v => .byte v.pinsB⟩,
  ⟨"ddr_a", fun v => .byte v.directionA⟩,
  ⟨"ddr_b", fun v => .byte v.directionB⟩,
  ⟨"timer1.latch", fun v => .word v.latch1⟩,
  ⟨"acr", fun v => .byte v.control⟩,
  ⟨"pcr", fun v => .byte v.pinControl⟩,
  ⟨"ifr", fun v => .byte v.flags⟩,
  ⟨"ier", fun v => .byte v.enabled⟩,
  ⟨"irq", fun v => .flag v.interrupting⟩,
  ⟨"pb7", fun v => .flag v.output1⟩]

end Via

end C64
