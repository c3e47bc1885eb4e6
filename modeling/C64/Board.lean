import C64.Bus
import C64.Cia
import C64.Input
import C64.Keyboard
import C64.Memory
import C64.Rtc
import C64.Via
import C64.Vic.Frame

/-!
# The board

Memory and chips around the processor, and the clock that all of them share. The processor's
port decides whether the addresses from `$D000` to `$DFFF` reach memory or the chips:

| Addresses      | Chip                                             |
|----------------|--------------------------------------------------|
| $D000 to $D3FF | video chip                                       |
| $D400 to $D7FF | sound chip, which is missing                     |
| $D800 to $DBFF | colours of the screen, in the low nybble         |
| $DC00 to $DCFF | first adapter: keyboard, joysticks, interrupts   |
| $DD00 to $DDFF | second adapter: bank of the video chip           |
| $DE00 to $DEFF | lines of the real-time clock, where one is fitted|
| $DF00 to $DFFF | interface adapter, where one is fitted           |

Where nothing answers, the byte that was last on the bus is read again.

Every chip that keeps time has its alarms on one clock. The processor lets time pass after an
instruction, and then whatever fell due fires in order.
-/

namespace C64

/-- Every alarm on the board. -/
inductive Board.Event where
  | cia1 (e : Cia.Event)
  | cia2 (e : Cia.Event)
  | via (e : Via.Event)
  | rtc (e : Rtc.Event)
  /-- The end of the current raster line. -/
  | rasterLine
deriving DecidableEq

namespace Board.Event

/-- The name of the event in a message. -/
def name : Board.Event → String
  | cia1 e => s!"Cia1({e.name})"
  | cia2 e => s!"Cia2({e.name})"
  | via e => s!"Via({e.name})"
  | rtc e => s!"Rtc({e.name})"
  | rasterLine => "RasterLine"

instance : ToString Board.Event := ⟨name⟩

end Board.Event

/-- The chips behind the addresses from `$D000` on. -/
inductive Board.Device where
  | vic | sound | colours | cia1 | cia2 | rtc | via
deriving DecidableEq

/-- The chip behind an address. -/
def Board.Device.behind (address : UInt16) : Board.Device :=
  match ((address >>> 8) &&& 0x0F).toNat with
  | 0x0 | 0x1 | 0x2 | 0x3 => vic
  | 0x4 | 0x5 | 0x6 | 0x7 => sound
  | 0x8 | 0x9 | 0xA | 0xB => colours
  | 0xC => cia1
  | 0xD => cia2
  | 0xE => rtc
  | _ => via

/-- What is on the board, apart from the clock. -/
structure Board.Devices where
  memory : Memory
  vic : Vic
  cia1 : Cia
  cia2 : Cia
  via : Option Via
  rtc : Option Rtc
  keyboard : Keyboard
  /-- The joystick at port 1. -/
  joystick1 : Joystick
  /-- The joystick at port 2. -/
  joystick2 : Joystick
  /-- The byte that was last on the bus. -/
  lastValue : UInt8
  /-- The lines of the real-time clock as they were last written. -/
  rtcLines : UInt8
  /-- Whether a frame was completed since anyone asked. -/
  frameComplete : Bool

/-- The board. -/
structure Board where
  devices : Board.Devices
  clock : Clock Board.Event

namespace Board

/-! ## The lines of the real-time clock, as bits -/

def rtcData : UInt8 := 0x01

def rtcSerialClock : UInt8 := 0x02

def rtcEnable : UInt8 := 0x04

/-! ## Fitting the chips -/

/-- A board without the chips that are optional. -/
def new (memory : Memory) (standard : VideoStandard) (cia : Cia.Config) : Except Fault Board := do
  let (cia1, clock) ← Cia.new Event.cia1 cia .zero
  let (cia2, clock) ← Cia.new Event.cia2 cia clock
  let (_, clock) ← clock.setAlarmIn standard.cyclesPerLine Event.rasterLine
  return {
    devices := {
      memory, cia1, cia2
      vic := .new standard
      via := none
      rtc := none
      keyboard := .released
      joystick1 := {}
      joystick2 := {}
      lastValue := 0xFF
      rtcLines := 0
      frameComplete := false }
    clock }

/-- Takes the real-time clock off, if there is one. -/
def detachRtc (b : Board) : Board :=
  if b.devices.rtc.isSome then
    ⟨{ b.devices with rtc := none }, b.clock.cancel (.rtc .tick)⟩
  else b

/-- Fits a real-time clock in place of any other. If none can be built to the configuration, the
place stays empty; answers what is wrong then. -/
def attachRtc (b : Board) (config : Rtc.Config) :
    Except Fault (Option Rtc.ConfigError × Board) := do
  let b := b.detachRtc
  match ← Rtc.new Event.rtc config b.clock with
  | .error e => return (some e, b)
  | .ok (rtc, clock) => return (none, ⟨{ b.devices with rtc := some rtc, rtcLines := 0 }, clock⟩)

/-- Fits an interface adapter, if there is none. -/
def attachVia (b : Board) : Board :=
  if b.devices.via.isSome then b else { b with devices.via := some .initial }

/-- Takes the interface adapter off, with its alarms. -/
def detachVia (b : Board) : Board :=
  if b.devices.via.isSome then
    ⟨{ b.devices with via := none }, (Via.reset Event.via b.clock).2⟩
  else b

/-- Resets every chip. The memory, the bytes in it and the time of the real-time clock stay. -/
def reset (b : Board) : Except Fault Board := do
  let d := b.devices
  let vic := d.vic.reset
  let (cia1, clock) ← d.cia1.reset Event.cia1 b.clock
  let (cia2, clock) ← d.cia2.reset Event.cia2 clock
  let (via, clock) :=
    match d.via with
    | some _ =>
      let (via, clock) := Via.reset Event.via clock
      (some via, clock)
    | none => (none, clock)
  let (_, clock) ← clock.setAlarmIn vic.standard.cyclesPerLine Event.rasterLine
  return ⟨{ d with
    memory := d.memory.reset
    rtc := d.rtc.map Rtc.resetLines
    vic, cia1, cia2, via
    rtcLines := 0
    frameComplete := false }, clock⟩

/-! ## The processor's reads and writes -/

namespace Devices

/-- The bank the video chip sees: the low lines of the second adapter's port A, inverted. -/
def bank (d : Devices) : Fin 4 := ⟨(~~~d.cia2.pinsA).toNat % 4, Nat.mod_lt _ (by decide)⟩

/-- What the keyboard and the joysticks drive onto the pins of the first adapter. A joystick
shares port A with the rows of the keyboard, the other one shares port B with the columns; a
line is low as soon as anything pulls it low. -/
def scanInput (d : Devices) : Devices :=
  let cia1 := { d.cia1 with inputA := d.joystick2.lines }
  let rows := cia1.pinsA &&& d.joystick2.lines
  { d with cia1 := { cia1 with inputB := d.keyboard.columns rows &&& d.joystick1.lines } }

/-- What the lines of the real-time clock show; the other bits are those last on the bus. -/
def rtcByte (d : Devices) (rtc : Rtc) : UInt8 :=
  d.lastValue &&& 0xF8 ||| d.rtcLines &&& (rtcSerialClock ||| rtcEnable) ||| bitByte rtc.dataLine

/-- A colour of the screen; the high nybble is the one last on the bus. -/
def colourByte (d : Devices) (address : UInt16) : UInt8 :=
  d.lastValue &&& 0xF0 ||| d.memory.colour address.toNat

end Devices

/-- Whether an address reaches a chip. -/
def reachesChip (b : Board) (address : UInt16) : Bool :=
  b.devices.memory.port.region address = .chips

/-- What a chip would answer, without any effect. -/
def peekChip (b : Board) (address : UInt16) : UInt8 :=
  let d := b.devices
  let register := lowByte address
  match Device.behind address with
  | .vic => d.vic.peek register
  | .sound => d.lastValue
  | .colours => d.colourByte address
  | .cia1 => d.cia1.peek Event.cia1 b.clock register
  | .cia2 => d.cia2.peek Event.cia2 b.clock register
  | .rtc => (d.rtc.map d.rtcByte).getD d.lastValue
  | .via => (d.via.map fun via => via.peek Event.via b.clock register).getD d.lastValue

/-- What the processor would read, without any effect. -/
def peek (b : Board) (address : UInt16) : UInt8 :=
  if b.reachesChip address then b.peekChip address else b.devices.memory.read address

/-- Reads a register of the first adapter. The joystick at port 2 pulls the lines of port A low
even where they are outputs. -/
def readCia1 (b : Board) (register : UInt8) : UInt8 × Board :=
  let d := b.devices.scanInput
  let (value, cia1) := d.cia1.read Event.cia1 b.clock register
  let value := if register &&& 0x0F = 0 then value &&& d.joystick2.lines else value
  (value, { b with devices := { d with cia1 } })

/-- Reads from a chip. -/
def readChip (b : Board) (address : UInt16) : UInt8 × Board :=
  let d := b.devices
  let register := lowByte address
  match Device.behind address with
  | .vic =>
    let (value, vic) := d.vic.read register
    (value, { b with devices := { d with vic } })
  | .cia1 => b.readCia1 register
  | .cia2 =>
    let (value, cia2) := d.cia2.read Event.cia2 b.clock register
    (value, { b with devices := { d with cia2 } })
  | .via =>
    match d.via with
    | some via =>
      let (value, via) := via.read Event.via b.clock register
      (value, { b with devices := { d with via := some via } })
    | none => (d.lastValue, b)
  | .sound | .colours | .rtc => (b.peekChip address, b)

/-- Reads what the processor reads. -/
def read (b : Board) (address : UInt16) : UInt8 × Board :=
  let (value, b) :=
    if b.reachesChip address then b.readChip address else (b.devices.memory.read address, b)
  (value, { b with devices.lastValue := value })

/-- Writes to a chip. -/
def writeChip (b : Board) (address : UInt16) (value : UInt8) : Except Fault Board := do
  let ⟨d, clock⟩ := b
  let register := lowByte address
  match Device.behind address with
  | .vic => return ⟨{ d with vic := d.vic.write register value }, clock⟩
  | .sound => return ⟨d, clock⟩
  | .colours => return ⟨{ d with memory := d.memory.setColour address.toNat value }, clock⟩
  | .cia1 =>
    let (cia1, clock) ← d.cia1.write Event.cia1 clock register value
    return ⟨{ d with cia1 }, clock⟩
  | .cia2 =>
    let (cia2, clock) ← d.cia2.write Event.cia2 clock register value
    return ⟨{ d with cia2 }, clock⟩
  | .rtc =>
    match d.rtc with
    | some rtc =>
      let rtc := rtc.setLines (anyBit value rtcEnable) (anyBit value rtcSerialClock)
        (anyBit value rtcData)
      return ⟨{ d with
        rtc := some rtc
        rtcLines := value &&& (rtcData ||| rtcSerialClock ||| rtcEnable) }, clock⟩
    | none => return ⟨d, clock⟩
  | .via =>
    match d.via with
    | some via =>
      let (via, clock) ← via.write Event.via clock register value
      return ⟨{ d with via := some via }, clock⟩
    | none => return ⟨d, clock⟩

/-- Writes what the processor writes. -/
def write (b : Board) (address : UInt16) (value : UInt8) : Except Fault Board :=
  let ⟨⟨memory, vic, cia1, cia2, via, rtc, keyboard, joystick1, joystick2, _, rtcLines,
    frameComplete⟩, clock⟩ := b
  if memory.port.region address = .chips then
    writeChip ⟨⟨memory, vic, cia1, cia2, via, rtc, keyboard, joystick1, joystick2, value, rtcLines,
      frameComplete⟩, clock⟩ address value
  else
    .ok ⟨⟨memory.write address value, vic, cia1, cia2, via, rtc, keyboard, joystick1, joystick2,
      value, rtcLines, frameComplete⟩, clock⟩

/-! ## Time -/

/-- Closes a raster line and sets the alarm for the end of the next. -/
def endLine (bank : Fin 4) (due : Nat) (clock : Clock Event) (d : Devices) :
    Except Fault (Clock Event × Devices) := do
  let ⟨memory, vic, cia1, cia2, via, rtc, keyboard, joystick1, joystick2, lastValue, rtcLines,
    frameComplete⟩ := d
  let clock := clock.setAlarm (← Cycle.add due vic.standard.cyclesPerLine) .rasterLine
  let (ended, vic) ← vic.endOfLine (memory.view bank)
  return (clock, ⟨memory, vic, cia1, cia2, via, rtc, keyboard, joystick1, joystick2, lastValue,
    rtcLines, frameComplete || ended⟩)

/-- Hands an alarm to the chip it belongs to. The video chip sees the bank that was selected
before time began to pass. -/
def fire (bank : Fin 4) : Clock.Handler Event Devices := fun alarm clock d => do
  match alarm.event with
  | .cia1 e =>
    let (cia1, clock) ← d.cia1.onAlarm Event.cia1 clock e alarm.due
    return (clock, { d with cia1 })
  | .cia2 e =>
    let (cia2, clock) ← d.cia2.onAlarm Event.cia2 clock e alarm.due
    return (clock, { d with cia2 })
  | .via e =>
    match d.via with
    | some via =>
      let (via, clock) ← via.onAlarm Event.via clock e alarm.due
      return (clock, { d with via := some via })
    | none => return (clock, d)
  | .rtc .tick =>
    match d.rtc with
    | some rtc =>
      let (rtc, clock) ← rtc.onAlarm Event.rtc clock alarm.due
      return (clock, { d with rtc := some rtc })
    | none => return (clock, d)
  | .rasterLine => endLine bank alarm.due clock d

/-- Lets time pass. -/
def tick (b : Board) (cycles : Nat) : Except Fault Board := do
  let ⟨d, clock⟩ := b
  let (clock, d) ← clock.advance (fire d.bank) cycles d
  return ⟨d, clock⟩

/-- The levels of the interrupt lines. -/
def lines (b : Board) : InterruptLines where
  irq := b.devices.cia1.interrupting || b.devices.vic.interrupting ||
    b.devices.via.any Via.interrupting
  nmi := b.devices.cia2.interrupting

instance : Bus Board where
  read := read
  write := write
  tick := tick
  lines := lines

end Board

end C64
