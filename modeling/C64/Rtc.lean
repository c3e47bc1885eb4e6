import C64.Clock
import C64.Inspect
import C64.Rtc.Calendar
import C64.Rtc.Transfer

/-!
# The real-time clock

A calendar with some memory behind three lines: enable, serial clock, and one data line for
both directions. A rising edge of the serial clock while the chip is enabled is one pulse; a
change of the enable line begins or aborts a transfer.

The calendar goes on with an alarm of the machine clock, once a second. The halt bit of the
seconds stops the calendar and not the alarm.
-/

namespace C64

open Rtc

/-- The alarm of the chip. -/
inductive Rtc.Event where
  | tick
deriving DecidableEq

namespace Rtc.Event

/-- The name of the event in a message. -/
def name : Rtc.Event → String
  | tick => "Tick"

instance : ToString Rtc.Event := ⟨name⟩

end Rtc.Event

/-- The two kinds of the chip. -/
inductive Rtc.Model where
  /-- Thirty-one bytes of memory and a register for charging a battery. -/
  | ds1302
  /-- Twenty-four bytes of memory. -/
  | ds1202
deriving DecidableEq

namespace Rtc.Model

/-- The bytes of memory. -/
def memorySize : Rtc.Model → Nat
  | ds1302 => 31
  | ds1202 => 24

/-- The name of the kind. -/
def name : Rtc.Model → String
  | ds1302 => "Ds1302"
  | ds1202 => "Ds1202"

end Rtc.Model

/-- How a chip is built. -/
structure Rtc.Config where
  model : Rtc.Model := .ds1302
  /-- Cycles of the machine in a second of the calendar. -/
  cyclesPerSecond : Nat := 985248
  start : Rtc.Time := .initial
  /-- Whether the calendar begins halted. -/
  halted : Bool := false
deriving DecidableEq

/-- Why no chip can be built to the configuration. -/
def Rtc.Config.error? (config : Rtc.Config) : Option ConfigError :=
  if config.cyclesPerSecond = 0 then some .zeroRate else config.start.error?

/-- The state of the chip. -/
structure Rtc where
  model : Model
  cyclesPerSecond : Nat
  transfer : Transfer
  registers : Registers
  memory : Vector UInt8 31
  /-- The registers as they stood when the reading of all of them began. -/
  held : Registers
  enable : Bool
  serialClock : Bool
  /-- What the host last drove onto the data line. -/
  dataIn : Bool
  /-- What the chip drives onto the data line while it transmits. -/
  dataOut : Bool
deriving DecidableEq

namespace Rtc

variable {ε : Type} [DecidableEq ε] (event : Event → ε)

/-- The chip after power-on. -/
def powerOn (config : Config) : Rtc :=
  { model := config.model
    cyclesPerSecond := config.cyclesPerSecond
    transfer := .idle
    registers := .ofTime config.start config.halted
    memory := .replicate 31 0
    held := .zero
    enable := false
    serialClock := false
    dataIn := false
    dataOut := false }

/-- A chip built to a configuration, with the alarm for its first second set. -/
def new [ToString ε] (config : Config) (clock : Clock ε) :
    Except Fault (Except ConfigError (Rtc × Clock ε)) :=
  match config.error? with
  | some e => .ok (.error e)
  | none => do
    let (_, clock) ← clock.setAlarmIn config.cyclesPerSecond (event .tick)
    return .ok (powerOn config, clock)

/-- Handles the alarm of the chip that was set for cycle `due`. -/
def onAlarm (r : Rtc) (clock : Clock ε) (due : Nat) : Except Fault (Rtc × Clock ε) := do
  let r := if r.registers.halted then r else { r with registers := r.registers.tick }
  return (r, clock.setAlarm (← Cycle.add due r.cyclesPerSecond) (event .tick))

/-! ## Bytes -/

/-- The number of the control register. -/
def controlIndex : Nat := 7

/-- The number of the register for charging a battery. -/
def trickleIndex : Nat := 8

/-- The registers that are read or written one after another. -/
def burstLength : Nat := 8

/-- The bytes of memory the model has. -/
def memoryBytes (r : Rtc) : List UInt8 := r.memory.toList.take r.model.memorySize

/-- The byte a transfer reads; zero where there is none. -/
def load (r : Rtc) (target : Target) : UInt8 :=
  if target.memory then
    if target.index < r.model.memorySize then r.memory[target.index]?.getD 0 else 0
  else if target.burst then (r.held.get? target.index).getD 0
  else if target.index = trickleIndex ∧ r.model = .ds1202 then 0
  else (r.registers.get? target.index).getD 0

/-- The chip after a transfer has written a byte. Under write protection only the control
register takes it, and of it only the bit that protects. -/
def store (r : Rtc) (target : Target) (b : UInt8) : Rtc :=
  let isControl := !target.memory && target.index = controlIndex
  if r.registers.writeProtected && !isControl then r
  else if target.memory then
    if target.index < r.model.memorySize then
      { r with memory := r.memory.setIfInBounds target.index b }
    else r
  else if isControl then { r with registers.control := b &&& protectBit }
  else if target.index = trickleIndex ∧ (target.burst ∨ r.model = .ds1202) then r
  else { r with registers := r.registers.set target.index b }

/-- What follows in a burst. -/
def next? (r : Rtc) (target : Target) : Option Target :=
  let length := if target.memory then r.model.memorySize else burstLength
  if target.burst ∧ target.index + 1 < length then some { target with index := target.index + 1 }
  else none

/-! ## Pulses -/

/-- Puts a bit of a byte to read onto the data line. -/
def present (r : Rtc) (target : Target) (bit : Nat) : Rtc :=
  { r with transfer := .transmitting target bit, dataOut := bitAt (r.load target) bit }

/-- Begins what a command asks for. -/
def obey (r : Rtc) : Command → Rtc
  | .none => { r with transfer := .ignoring }
  | .write target => { r with transfer := .receiving target 0 0 }
  | .read target =>
    let r := if target.burst && !target.memory then { r with held := r.registers } else r
    r.present target 0

/-- A bit put above the `count` bits that came before it. -/
def addBit (bits : UInt8) (count : Nat) (bit : Bool) : UInt8 :=
  bits ||| bitByte bit <<< count.toUInt8

/-- One pulse of the serial clock, with a level on the data line. -/
def pulse (r : Rtc) (bit : Bool) : Rtc :=
  match r.transfer with
  | .idle | .ignoring => r
  | .command bits count =>
    let bits := addBit bits count bit
    if count = 7 then r.obey (.ofByte bits)
    else { r with transfer := .command bits (count + 1) }
  | .receiving target bits count =>
    let bits := addBit bits count bit
    if count < 7 then { r with transfer := .receiving target bits (count + 1) }
    else
      let r := r.store target bits
      match r.next? target with
      | some target => { r with transfer := .receiving target 0 0 }
      | none => { r with transfer := .ignoring }
  | .transmitting target bit =>
    if bit < 7 then r.present target (bit + 1)
    else
      match r.next? target with
      | some target => r.present target 0
      | none => { r with transfer := .ignoring }

/-! ## Lines -/

/-- Sets the three lines. -/
def setLines (r : Rtc) (enable serialClock data : Bool) : Rtc :=
  if enable != r.enable then
    { r with
      enable, serialClock
      dataIn := data
      dataOut := false
      transfer := if enable then .command 0 0 else .idle }
  else
    let rising := serialClock && !r.serialClock
    let r := { r with serialClock, dataIn := data }
    if enable && rising then r.pulse data else r

/-- Gives up any transfer. Time and memory run on a battery and stay. -/
def resetLines (r : Rtc) : Rtc :=
  { r with transfer := .idle, enable := false, serialClock := false, dataOut := false }

/-- The level on the data line as the host sees it. -/
def dataLine (r : Rtc) : Bool :=
  match r.transfer with
  | .transmitting _ _ => r.dataOut
  | _ => r.dataIn

/-- The time as a calendar shows it. -/
def renderTime (t : Time) : String :=
  let two (b : UInt8) := Text.zeroPad 2 (toString b.toNat)
  s!"20{two t.year}-{two t.month}-{two t.date} {two t.hours}:{two t.minutes}:{two t.seconds}"

/-- What can be asked of the chip. -/
def probes : List (Probe Rtc) := [
  ⟨"halted", fun r => .flag r.registers.halted⟩,
  ⟨"write_protect", fun r => .flag r.registers.writeProtected⟩,
  ⟨"state", fun r => .text r.transfer.describe⟩,
  ⟨"time", fun r => .text (renderTime r.registers.time)⟩]

end Rtc

end C64
