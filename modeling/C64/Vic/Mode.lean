import C64.Byte
import C64.Bytes

/-!
# Display modes

Each character cell makes eight pixels of a pattern byte, a screen byte and a colour. In a
hires cell every bit of the pattern is a pixel; in a multicolour cell every pair of bits is a
pixel of double width.
-/

namespace C64.Vic

/-- Character cells in a line of the display window. -/
def textColumns : Nat := 40

/-- Pixels in a line of the display window. -/
def runLength : Nat := textColumns * 8

/-- How patterns become pixels. -/
inductive DisplayMode where
  | standardText
  | multicolourText
  | extendedText
  | hiresBitmap
  | multicolourBitmap
  /-- A combination of mode bits that shows black. -/
  | invalid
deriving DecidableEq

namespace DisplayMode

/-- The mode that the two control registers select. -/
def ofRegisters (d011 d016 : UInt8) : DisplayMode :=
  match anyBit d011 0x40, anyBit d011 0x20, anyBit d016 0x10 with
  | false, false, false => standardText
  | false, false, true => multicolourText
  | true, false, false => extendedText
  | false, true, false => hiresBitmap
  | false, true, true => multicolourBitmap
  | _, _, _ => invalid

/-- Whether patterns come from a bitmap. -/
def isBitmap : DisplayMode → Bool
  | hiresBitmap | multicolourBitmap => true
  | _ => false

/-- The number of the mode, as kept with a line. -/
def number : DisplayMode → UInt8
  | standardText => 0
  | multicolourText => 1
  | extendedText => 2
  | hiresBitmap => 3
  | multicolourBitmap => 4
  | invalid => 5

/-- The name of the mode. -/
def name : DisplayMode → String
  | standardText => "StandardText"
  | multicolourText => "MulticolourText"
  | extendedText => "ExtendedText"
  | hiresBitmap => "HiresBitmap"
  | multicolourBitmap => "MulticolourBitmap"
  | invalid => "Invalid"

/-- The bits of a screen code that choose a character; in extended text the others choose a
background. -/
def codeMask : DisplayMode → UInt8
  | extendedText => 0x3F
  | _ => 0xFF

/-- The address of the pattern shown while no row is displayed. -/
def idleAddress : DisplayMode → Nat
  | extendedText => 0x39FF
  | _ => 0x3FFF

end DisplayMode

/-- Four background colours. -/
abbrev Backgrounds := Vector UInt8 4

/-! ## Pixels -/

/-- Pixel `i` of a cell whose set bits show `set` and whose clear bits show `clear`. -/
def hiresPixel (pattern set clear : UInt8) (i : Nat) : UInt8 :=
  if bitAt pattern (7 - i) then set else clear

/-- The pair of bits of a pattern that pixel `i` belongs to. -/
def pairAt (pattern : UInt8) (i : Nat) : Nat := pattern.toNat >>> (6 - i / 2 * 2) % 4

/-- Pixel `i` of a cell whose pairs of bits choose one of four colours. -/
def multicolourPixel (pattern c0 c1 c2 c3 : UInt8) (i : Nat) : UInt8 :=
  match pairAt pattern i with
  | 0 => c0
  | 1 => c1
  | 2 => c2
  | _ => c3

/-- Pixel `i` of a cell, counted from the left. -/
def cellPixel (mode : DisplayMode) (pattern screen colour : UInt8) (background : Backgrounds)
    (i : Nat) : UInt8 :=
  match mode with
  | .standardText => hiresPixel pattern (colour &&& 0x0F) background[0] i
  | .multicolourText =>
    -- A bit of the colour chooses between the two kinds of cell.
    if anyBit colour 0x08 then
      multicolourPixel pattern background[0] background[1] background[2] (colour &&& 0x07) i
    else hiresPixel pattern (colour &&& 0x07) background[0] i
  | .extendedText =>
    hiresPixel pattern (colour &&& 0x0F) (background.get (Fin.ofNat 4 (screen >>> 6).toNat)) i
  | .hiresBitmap => hiresPixel pattern (screen >>> 4) (screen &&& 0x0F) i
  | .multicolourBitmap =>
    multicolourPixel pattern background[0] (screen >>> 4) (screen &&& 0x0F) (colour &&& 0x0F) i
  | .invalid => 0

/-- The foreground of a cell as bits, the leftmost pixel highest. Of a multicolour cell the two
higher pairs are foreground. -/
def foregroundBits (mode : DisplayMode) (pattern colour : UInt8) : UInt8 :=
  let multicolour := match mode with
    | .multicolourText => anyBit colour 0x08
    | .multicolourBitmap => true
    | _ => false
  if multicolour then
    let high := pattern &&& 0xAA
    high ||| high >>> 1
  else pattern

/-! ## Runs of pixels

A run is the line of the display window. Scrolling moves the cells to the right and uncovers
the background at the left edge. -/

/-- What the cells of a run are made of. -/
structure RunSource where
  pattern : Bytes textColumns
  screen : Bytes textColumns
  colour : Bytes textColumns

/-- Pixel `j` of the run. -/
def graphicsPixel (mode : DisplayMode) (source : RunSource) (background : Backgrounds)
    (xScroll : Nat) (j : Nat) : UInt8 :=
  if j < xScroll then if mode = .invalid then 0 else background[0]
  else
    let cell := (j - xScroll) / 8
    cellPixel mode (source.pattern.byteAt cell) (source.screen.byteAt cell)
      (source.colour.byteAt cell) background ((j - xScroll) % 8)

/-- Whether pixel `j` of the run is foreground. -/
def graphicsForeground (mode : DisplayMode) (source : RunSource) (xScroll : Nat) (j : Nat) :
    Bool :=
  if j < xScroll ∨ runLength ≤ j then false
  else
    let cell := (j - xScroll) / 8
    bitAt (foregroundBits mode (source.pattern.byteAt cell) (source.colour.byteAt cell))
      (7 - (j - xScroll) % 8)

/-- Pixel `j` of the run while no row is displayed: every cell shows the same pattern, with
screen code and colour zero. -/
def idlePixel (mode : DisplayMode) (pattern : UInt8) (background : Backgrounds) (j : Nat) :
    UInt8 :=
  cellPixel mode pattern 0 0 background (j % 8)

/-- Whether pixel `j` of the run is foreground while no row is displayed. -/
def idleForeground (mode : DisplayMode) (pattern : UInt8) (j : Nat) : Bool :=
  j < runLength && bitAt (foregroundBits mode pattern 0) (7 - j % 8)

end C64.Vic
