import C64.Byte
import C64.Bytes

/-!
# Sprites

Eight movable shapes, taken line by line. `SpriteRow.fetch` reads those that cover a line,
`SpriteRow.overlay` lays them over a line of pixels and tells which of them touched. A sprite
with a lower number lies above one with a higher number.
-/

namespace C64.Vic

/-- What the chip sees of memory: a bank of sixteen kilobytes and the colours of the screen. -/
structure VideoMemory where
  /-- The byte at an address below `$4000`. -/
  read : Nat → UInt8
  /-- The colour at an offset below `$400`. -/
  colour : Nat → UInt8

/-- Pixels in a line of the picture. -/
def width : Nat := 416

/-- Pixels in the left border, and in the right one. -/
def border : Nat := 48

/-- The number of sprites. -/
def spriteCount : Nat := 8

/-- From a sprite's position to the column of its first pixel. -/
def spriteOffset : Nat := 24

/-- One line of a sprite. -/
structure Sprite where
  /-- The position, of nine bits. -/
  x : UInt16
  data0 : UInt8
  data1 : UInt8
  data2 : UInt8
  colour : UInt8
  multicolour : Bool
  /-- Whether every pixel is twice as wide. -/
  expanded : Bool
  /-- Whether the foreground covers the sprite. -/
  behind : Bool
deriving DecidableEq

namespace Sprite

/-- The number of columns. -/
def length (s : Sprite) : Nat := if s.expanded then 48 else 24

/-- The twenty-four bits of the line. -/
def bits (s : Sprite) : Nat := s.data0.toNat * 0x10000 + s.data1.toNat * 0x100 + s.data2.toNat

/-- The colour of column `i`, none where the sprite is transparent. -/
def pixel? (s : Sprite) (shared1 shared2 : UInt8) (i : Nat) : Option UInt8 :=
  let i := if s.expanded then i / 2 else i
  if s.multicolour then
    match s.bits >>> (22 - i / 2 * 2) % 4 with
    | 0 => none
    | 1 => some shared1
    | 2 => some s.colour
    | _ => some shared2
  else if s.bits.testBit (23 - i) then some s.colour
  else none

/-- The bytes that decide the sprite's pixels. -/
def state (s : Sprite) : List UInt8 :=
  [1, lowByte s.x, highByte s.x, s.data0, s.data1, s.data2, s.colour,
    bitByte s.multicolour ||| bitByte s.expanded <<< 1 ||| bitByte s.behind <<< 2]

end Sprite

/-- The sprites that cover a line, by number, and the two colours they share. -/
structure SpriteRow where
  sprites : Vector (Option Sprite) spriteCount
  shared1 : UInt8
  shared2 : UInt8
deriving DecidableEq

/-- The number of bytes that describe the sprites of a line. -/
def spriteStateLength : Nat := spriteCount * 8 + 2

/-- What laying sprites over a line led to. -/
structure Overlay where
  /-- The columns that a sprite was drawn in, from the first to before the second number. -/
  drawn : Option (Nat × Nat)
  /-- The sprites that touched another sprite, as bits. -/
  spriteCollision : UInt8
  /-- The sprites that touched the foreground, as bits. -/
  backgroundCollision : UInt8
deriving DecidableEq

namespace Overlay

/-- Whether a set of sprites has more than one member. -/
def isCrowd (present : UInt8) : Bool := present &&& (present - 1) != 0

/-- The sprites at a column touch each other, and the foreground if there is some. -/
def touch (laid : Overlay) (present : UInt8) (inFront : Bool) : Overlay :=
  { laid with
    spriteCollision :=
      if isCrowd present then laid.spriteCollision ||| present else laid.spriteCollision
    backgroundCollision :=
      if inFront then laid.backgroundCollision ||| present else laid.backgroundCollision }

/-- Column `x` is drawn in, to the right of all before. -/
def draw (laid : Overlay) (x : Nat) : Overlay :=
  let first := match laid.drawn with
    | some (first, _) => first
    | none => x
  { laid with drawn := some (first, x + 1) }

end Overlay

/-- The sprites at one column. -/
structure Column where
  /-- Their numbers, as bits. -/
  present : UInt8
  /-- The colour of the topmost of them, and whether the foreground covers it. -/
  top : Option (UInt8 × Bool)
deriving DecidableEq

namespace SpriteRow

/-- Reads sprite `i` for a raster line, if it is switched on and covers the line. -/
def fetchSprite (registers : Bytes 64) (line screenBase : Nat) (memory : VideoMemory) (i : Nat) :
    Option Sprite :=
  let has (register : Nat) := bitAt (registers.byteAt register) i
  let expandedY := has 0x17
  let y := (registers.byteAt (1 + i * 2)).toNat
  if has 0x15 ∧ y ≤ line ∧ line - y < (if expandedY then 42 else 21) then
    let row := if expandedY then (line - y) / 2 else line - y
    let block := (memory.read ((screenBase + 0x03F8 + i) % 0x4000)).toNat
    let data (n : Nat) := memory.read ((block * 64 + row * 3 + n) % 0x4000)
    some {
      x := wordOf (bitByte (has 0x10)) (registers.byteAt (i * 2))
      data0 := data 0
      data1 := data 1
      data2 := data 2
      colour := registers.byteAt (0x27 + i) &&& 0x0F
      multicolour := has 0x1C
      expanded := has 0x1D
      behind := has 0x1B }
  else none

/-- Reads the sprites that cover a raster line. -/
def fetch (registers : Bytes 64) (line screenBase : Nat) (memory : VideoMemory) : SpriteRow where
  sprites := .ofFn fun i => fetchSprite registers line screenBase memory i.val
  shared1 := registers.byteAt 0x25 &&& 0x0F
  shared2 := registers.byteAt 0x26 &&& 0x0F

/-- Whether no sprite covers the line. -/
def isEmpty (r : SpriteRow) : Bool := r.sprites.all (·.isNone)

/-- The bytes that decide the pixels of all sprites. -/
def state (r : SpriteRow) : List UInt8 :=
  (r.sprites.toList.flatMap fun
    | some s => s.state
    | none => List.replicate 8 0) ++ [r.shared1, r.shared2]

/-- Puts column `k` of sprite `i` on top of the column it lies over. -/
def paintPixel {n : Nat} (r : SpriteRow) (i : Nat) (s : Sprite) (k : Nat)
    (columns : Vector Column n) : Vector Column n :=
  let x := s.x.toNat + spriteOffset + k
  match s.pixel? r.shared1 r.shared2 k with
  | some colour =>
    if h : x < n then
      columns.set x ⟨columns[x].present ||| 1 <<< i.toUInt8, some (colour, s.behind)⟩ h
    else columns
  | none => columns

/-- Puts sprite `i` on top of the columns it covers. -/
def paint {n : Nat} (r : SpriteRow) (columns : Vector Column n) (i : Nat) (s : Sprite) :
    Vector Column n :=
  Nat.fold s.length (fun k _ columns => r.paintPixel i s k columns) columns

/-- Paints the sprite with `k` sprites behind it, if it covers the line. -/
def paintNext {n : Nat} (r : SpriteRow) (k : Nat) (columns : Vector Column n) :
    Vector Column n :=
  let i := spriteCount - 1 - k
  match r.sprites[i]?.join with
  | some s => r.paint columns i s
  | none => columns

/-- The sprites at every column of a line, painted from the last to the first. -/
def columns (r : SpriteRow) (n : Nat) : Vector Column n :=
  Nat.fold spriteCount (fun k _ columns => r.paintNext k columns) (.replicate n ⟨0, none⟩)

/-- Lays the sprites at one column over its pixel. -/
def overlayColumn {n : Nat} (columns : Vector Column n) (left right : Nat)
    (foreground : Nat → Bool) (x : Nat) (state : Overlay × Bytes n) : Overlay × Bytes n :=
  let (laid, pixels) := state
  if h : x < n then
    let column := columns[x]
    if column.present = 0 then (laid, pixels)
    else
      let inFront := foreground x
      let laid := laid.touch column.present inFront
      match column.top with
      | some (colour, behind) =>
        if left ≤ x ∧ x < right ∧ !(behind && inFront) then
          (laid.draw x, pixels.set ⟨x, h⟩ colour)
        else (laid, pixels)
      | none => (laid, pixels)
  else (laid, pixels)

/-- Lays the sprites over a line of pixels. Only the columns from `left` to before `right` are
drawn in. `foreground` tells which columns hold foreground. -/
def overlay {n : Nat} (r : SpriteRow) (pixels : Bytes n) (left right : Nat)
    (foreground : Nat → Bool) : Overlay × Bytes n :=
  let columns := r.columns n
  Nat.fold n (fun x _ state => overlayColumn columns left right foreground x state)
    (⟨none, 0, 0⟩, pixels)

end SpriteRow

end C64.Vic
