import C64.Proofs.Cia.Alarms

/-!
# An adapter that counts every cycle

The chip as its manual tells it, with no alarms: both counters are live, and `Stepped.cycle`
moves them on by one cycle of the processor. A counting timer at zero sets its flag, loads its
latch and stops if it was to run once; any other counting timer counts down. Timer B may count
the underflows of timer A in place of cycles, and a timer that counts pulses at the pin stands
still, for there are none. The time of day counts down to its next tenth of a second.

`Stepped` shares the registers that do not concern the timers with `Cia`; control registers,
latches and counters are written anew.
-/

namespace C64.Cia

/-- The chip with live counters. -/
structure Stepped where
  chip : Cia
  /-- Cycles to the next tenth of a second. -/
  untilTenth : Nat
deriving DecidableEq

namespace Stepped

/-- A timer counts once. Tells whether it underflows. -/
def count (t : Timer) : Bool × Timer :=
  if t.counter = 0 then
    (true, { t with
      counter := t.latch
      control := if t.oneShot then t.control &&& ~~~Control.start else t.control })
  else (false, { t with counter := t.counter - 1 })

/-- A timer counts once, if it counts at all. -/
def countIf (counts : Bool) (t : Timer) : Bool × Timer := if counts then count t else (false, t)

/-- Both timers count. Timer B counts cycles or the underflows of timer A. -/
def countTimers (c : Cia) : Cia :=
  let (underflowA, timerA) := countIf (Control.countsCycles .a c.timerA.control) c.timerA
  let (underflowB, timerB) :=
    countIf (Control.countsCycles .b c.timerB.control || underflowA && c.chained) c.timerB
  let sources := c.sources ||| (if underflowA then Source.timer .a else 0) |||
    (if underflowB then Source.timer .b else 0)
  { c with timerA, timerB, sources }

/-- One cycle of the processor. -/
def cycle (s : Stepped) : Stepped :=
  let c := countTimers s.chip
  if s.untilTenth ≤ 1 then
    let c := if c.todStopped then c else c.advanceTod
    ⟨c, c.tenth⟩
  else ⟨c, s.untilTenth - 1⟩

/-- A number of cycles. -/
def cycles : Nat → Stepped → Stepped
  | 0, s => s
  | n + 1, s => cycles n s.cycle

/-- A control register takes effect at once. Another rate at the pin of the time of day starts
the tenth of a second anew. -/
def writeControl (s : Stepped) (which : TimerId) (b : UInt8) : Stepped :=
  let t := s.chip.timer which
  let counter := if anyBit b Control.forceLoad then t.latch else t.counter
  let c := s.chip.withTimer which { t with control := b, counter }
  if which = .a ∧ anyBit (s.chip.timerA.control ^^^ b) Control.fiftyHertz then ⟨c, c.tenth⟩
  else ⟨c, s.untilTenth⟩

/-- A latch takes effect when the timer is loaded. Its high byte loads a timer that stands
still. -/
def writeLatch (s : Stepped) (which : TimerId) (high : Bool) (b : UInt8) : Stepped :=
  let t := s.chip.timer which
  let latch := if high then wordOf b (lowByte t.latch) else wordOf (highByte t.latch) b
  let counter := if high && !anyBit t.control Control.start then latch else t.counter
  ⟨s.chip.withTimer which { t with latch, counter }, s.untilTenth⟩

/-- Writes a register. -/
def write (s : Stepped) (register b : UInt8) : Stepped :=
  let c := s.chip
  match (register &&& 0x0F).toNat with
  | 0x0 => ⟨{ c with portA := b }, s.untilTenth⟩
  | 0x1 => ⟨{ c with portB := b }, s.untilTenth⟩
  | 0x2 => ⟨{ c with directionA := b }, s.untilTenth⟩
  | 0x3 => ⟨{ c with directionB := b }, s.untilTenth⟩
  | 0x4 => s.writeLatch .a false b
  | 0x5 => s.writeLatch .a true b
  | 0x6 => s.writeLatch .b false b
  | 0x7 => s.writeLatch .b true b
  | 0x8 => ⟨c.writeTod .tenths b, s.untilTenth⟩
  | 0x9 => ⟨c.writeTod .seconds b, s.untilTenth⟩
  | 0xA => ⟨c.writeTod .minutes b, s.untilTenth⟩
  | 0xB => ⟨c.writeTod .hours b, s.untilTenth⟩
  | 0xC =>
    let sent := if anyBit c.timerA.control Control.serialOut then Source.serial else 0
    ⟨{ c with serial := b, sources := c.sources ||| sent }, s.untilTenth⟩
  | 0xD => ⟨{ c with mask := withBits c.mask (b &&& 0x1F) (anyBit b 0x80) }, s.untilTenth⟩
  | 0xE => s.writeControl .a b
  | _ => s.writeControl .b b

/-- What a register shows. -/
def peek (s : Stepped) (register : UInt8) : UInt8 :=
  let c := s.chip
  match (register &&& 0x0F).toNat with
  | 0x0 => c.pinsA
  | 0x1 => c.pinsB
  | 0x2 => c.directionA
  | 0x3 => c.directionB
  | 0x4 => lowByte c.timerA.counter
  | 0x5 => highByte c.timerA.counter
  | 0x6 => lowByte c.timerB.counter
  | 0x7 => highByte c.timerB.counter
  | 0x8 => c.todShown.tenths
  | 0x9 => c.todShown.seconds
  | 0xA => c.todShown.minutes
  | 0xB => c.todShown.hours
  | 0xC => c.serial
  | 0xD => c.interruptByte
  | 0xE => c.timerA.control &&& ~~~Control.forceLoad
  | _ => c.timerB.control &&& ~~~Control.forceLoad

/-- Reads a register. -/
def read (s : Stepped) (register : UInt8) : UInt8 × Stepped :=
  let c := s.chip
  let shown := s.peek register
  match (register &&& 0x0F).toNat with
  | 0x8 => (shown, ⟨{ c with todHeld := none }, s.untilTenth⟩)
  | 0xB => (shown, ⟨{ c with todHeld := some c.todShown }, s.untilTenth⟩)
  | 0xD => (shown, ⟨{ c with sources := 0 }, s.untilTenth⟩)
  | _ => (shown, s)

/-- The chip after power-on or a reset. -/
def powerOn (config : Config) : Stepped := ⟨Cia.powerOn config, (Cia.powerOn config).tenth⟩

end Stepped

/-! ## What is done to a chip -/

/-- An action of the world around the chip. -/
inductive Action where
  | write (register b : UInt8)
  | read (register : UInt8)
  /-- The levels driven onto the pins of port A. -/
  | driveA (levels : UInt8)
  | driveB (levels : UInt8)
  /-- A falling edge at the flag pin. -/
  | flag
  | reset
  | advance (cycles : Nat)

/-- An action on the chip that counts cycles; answers the byte that was read. -/
def Stepped.act (s : Stepped) : Action → Option UInt8 × Stepped
  | .write register b => (none, s.write register b)
  | .read register => let (b, s) := s.read register; (some b, s)
  | .driveA levels => (none, { s with chip.inputA := levels })
  | .driveB levels => (none, { s with chip.inputB := levels })
  | .flag => (none, { s with chip.sources := s.chip.sources ||| Source.flagPin })
  | .reset => (none, .powerOn s.chip.config)
  | .advance cycles => (none, s.cycles cycles)

/-- What is seen of the chip in the course of some actions: the byte that each of them read, and
the whole chip behind it. -/
def Stepped.trace (s : Stepped) : List Action → List (Option UInt8 × Cia)
  | [] => []
  | action :: rest =>
    let (b, s) := s.act action
    (b, s.chip) :: s.trace rest

/-- The chip with the counters as they stand on the clock. -/
def live (c : Cia) (clock : Clock Event) : Cia :=
  { c with
    timerA.counter := c.counter id clock .a
    timerB.counter := c.counter id clock .b }

/-- An action on a chip with its alarms on a clock. -/
def act (c : Cia) (clock : Clock Event) :
    Action → Except Fault (Option UInt8 × Cia × Clock Event)
  | .write register b => do
    let (c, clock) ← c.write id clock register b
    return (none, c, clock)
  | .read register =>
    let (b, c) := c.read id clock register
    .ok (some b, c, clock)
  | .driveA levels => .ok (none, { c with inputA := levels }, clock)
  | .driveB levels => .ok (none, { c with inputB := levels }, clock)
  | .flag => .ok (none, c.flagEdge, clock)
  | .reset => do
    let (c, clock) ← c.reset id clock
    return (none, c, clock)
  | .advance cycles => do
    let (clock, c) ← clock.advance handler cycles c
    return (none, c, clock)

/-- What is seen of such a chip. -/
def trace (c : Cia) (clock : Clock Event) :
    List Action → Except Fault (List (Option UInt8 × Cia))
  | [] => .ok []
  | action :: rest => do
    let (b, c, clock) ← c.act clock action
    return (b, c.live clock) :: (← c.trace clock rest)

end C64.Cia
