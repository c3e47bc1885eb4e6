import C64.Inspect
import C64.Raster.Sink
import C64.Vic.Mode
import C64.Vic.Sprite
import C64.Vic.Standard

/-!
# The video chip

The chip renders one raster line at a time into a line cache. This file holds its state and its
registers; `C64.Vic.Line` renders a line, `C64.Vic.Frame` moves from line to line.

The picture is 416 pixels wide: a border of 48, a display window of 320 and a border again.
-/

namespace C64

open Vic Raster

/-- The measures of the chip's line cache. -/
abbrev Vic.shape : Shape := ⟨width, textColumns, spriteStateLength⟩

/-- The state of the chip. -/
structure Vic where
  standard : VideoStandard
  registers : Bytes 64
  rasterLine : Nat
  /-- The raster line that interrupts. -/
  rasterCompare : Nat
  /-- The interrupts that happened and were not acknowledged. -/
  irqStatus : UInt8
  /-- The interrupts that reach the interrupt line. -/
  irqEnable : UInt8
  /-- Whether the display was on at the first line of the display area. -/
  denLatch : Bool
  /-- Whether a character row is being displayed. -/
  displayState : Bool
  /-- The character row. -/
  row : Nat
  /-- The pixel row within the character row. -/
  rc : Nat
  /-- The screen codes that were fetched last. -/
  matrix : Bytes 0x400
  /-- The colours that were fetched last. -/
  colour : Bytes 0x400
  /-- The bytes of the bitmap that were fetched last. -/
  bitmap : Bytes 0x2000
  /-- Sprites that touched sprites, as bits, until it is read. -/
  spriteCollision : UInt8
  /-- Sprites that touched the foreground, as bits, until it is read. -/
  backgroundCollision : UInt8
  cache : Cache shape
  /-- Frames completed. -/
  frame : Nat

namespace Vic

/-- A chip after power-on. -/
def new (standard : VideoStandard) : Vic :=
  { standard
    registers := .replicate _ 0
    rasterLine := 0
    rasterCompare := 0
    irqStatus := 0
    irqEnable := 0
    denLatch := false
    displayState := false
    row := 0
    rc := 0
    matrix := .replicate _ 0
    colour := .replicate _ 0
    bitmap := .replicate _ 0
    spriteCollision := 0
    backgroundCollision := 0
    cache := .blank shape standard.visibleLines
    frame := 0 }

/-- Asks for every line to be rendered as a whole. -/
def invalidate (v : Vic) : Vic := { v with cache := v.cache.invalidate }

/-- Brings the registers back to power-on. The cache is kept, and every line is rendered as a
whole. -/
def reset (v : Vic) : Vic :=
  { v with
    registers := .replicate _ 0
    rasterLine := 0
    rasterCompare := 0
    irqStatus := 0
    irqEnable := 0
    denLatch := false
    displayState := false
    row := 0
    rc := 0
    spriteCollision := 0
    backgroundCollision := 0
    cache := v.cache.invalidate }

/-- A register as it was written. -/
def register (v : Vic) (i : Nat) : UInt8 := v.registers.byteAt i

/-- The display mode in force. -/
def mode (v : Vic) : DisplayMode := .ofRegisters (v.register 0x11) (v.register 0x16)

/-- The address of the screen codes. -/
def screenBase (v : Vic) : Nat := (v.register 0x18 >>> 4).toNat * 0x400

/-- The address of the character patterns. -/
def charBase (v : Vic) : Nat := (v.register 0x18 >>> 1 &&& 0x07).toNat * 0x800

/-- The address of the bitmap. -/
def bitmapBase (v : Vic) : Nat := if anyBit (v.register 0x18) 0x08 then 0x2000 else 0

/-- The first line that can be a badline, and the one behind the last. -/
def displayStart : Nat := 0x30
def displayStop : Nat := 0xF8

/-- Whether the chip fetches a character row on the current line. -/
def isBadline (v : Vic) : Bool :=
  v.denLatch && displayStart ≤ v.rasterLine && v.rasterLine < displayStop &&
    v.rasterLine % 8 = (v.register 0x11 &&& 0x07).toNat

/-- Whether the chip holds its interrupt line. -/
def interrupting (v : Vic) : Bool := anyBit (v.irqStatus &&& v.irqEnable) 0x0F

/-- What a register shows. Unused bits and registers show ones. -/
def peek (v : Vic) (r : UInt8) : UInt8 :=
  let r := (r &&& 0x3F).toNat
  match r with
  | 0x11 => v.register r &&& 0x7F ||| (if v.rasterLine.testBit 8 then 0x80 else 0)
  | 0x12 => v.rasterLine.toUInt8
  | 0x16 => v.register r ||| 0xC0
  | 0x18 => v.register r ||| 0x01
  | 0x19 => v.irqStatus ||| (if v.interrupting then 0x80 else 0) ||| 0x70
  | 0x1A => v.irqEnable ||| 0xF0
  | 0x1E => v.spriteCollision
  | 0x1F => v.backgroundCollision
  | _ => if r < 0x1E then v.register r else if r < 0x2F then v.register r ||| 0xF0 else 0xFF

/-- Reads a register. The collision registers are cleared. -/
def read (v : Vic) (r : UInt8) : UInt8 × Vic :=
  let shown := v.peek r
  match (r &&& 0x3F).toNat with
  | 0x1E => (shown, { v with spriteCollision := 0 })
  | 0x1F => (shown, { v with backgroundCollision := 0 })
  | _ => (shown, v)

/-- Writes a register. -/
def write (v : Vic) (r b : UInt8) : Vic :=
  let i := Fin.ofNat 64 r.toNat
  let v := { v with registers := v.registers.set i b }
  match i.val with
  | 0x11 =>
    { v with rasterCompare := v.rasterCompare % 0x100 + (if anyBit b 0x80 then 0x100 else 0) }
  | 0x12 => { v with rasterCompare := v.rasterCompare / 0x100 * 0x100 + b.toNat }
  | 0x19 => { v with irqStatus := v.irqStatus &&& (~~~b &&& 0x0F) }
  | 0x1A => { v with irqEnable := b &&& 0x0F }
  | _ => v

/-- What can be asked of the chip. -/
def probes : List (Probe Vic) := [
  ⟨"raster_line", fun v => .word v.rasterLine.toUInt16⟩,
  ⟨"raster_compare", fun v => .word v.rasterCompare.toUInt16⟩,
  ⟨"frame", fun v => .count v.frame⟩,
  ⟨"irq_status", fun v => .byte v.irqStatus⟩,
  ⟨"irq_enable", fun v => .byte v.irqEnable⟩,
  ⟨"irq", fun v => .flag v.interrupting⟩,
  ⟨"badline", fun v => .flag v.isBadline⟩,
  ⟨"border", fun v => .byte (v.register 0x20 &&& 0x0F)⟩,
  ⟨"sprites.enabled", fun v => .byte (v.register 0x15)⟩,
  ⟨"sprites.collision", fun v => .byte v.spriteCollision⟩,
  ⟨"sprites.background_collision", fun v => .byte v.backgroundCollision⟩,
  ⟨"mode", fun v => .text v.mode.name⟩]

end Vic

end C64
