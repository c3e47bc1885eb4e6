import C64.Vic

/-!
# Rendering a line

A line is rendered in steps that each compare with the cache: the border, what the cells are
made of, and the pixels of the window. The window is made anew only if something it is made of
has changed. A line with sprites is always made anew, so that collisions are seen in every
frame; its window is filled in three runs, up to the sprites, across them and behind them.
-/

namespace C64.Vic

open Raster

/-- How a line is to be shown. -/
structure LineSetting where
  mode : DisplayMode
  xScroll : UInt8
  border : UInt8
  background : Backgrounds
  /-- Whether the line lies in the display window. -/
  inWindow : Bool
  /-- Whether the window is forty columns wide. -/
  wide : Bool
  /-- Whether the line shows graphics, not the idle pattern. -/
  graphics : Bool
deriving DecidableEq

namespace LineSetting

/-- The first column of the window. -/
def left (s : LineSetting) : Nat := if s.wide then Vic.border else Vic.border + 7

/-- The column behind the window. -/
def right (s : LineSetting) : Nat :=
  if s.wide then Vic.border + runLength else Vic.border + runLength - 9

/-- Mode and window as one byte, as kept with a line. -/
def modeByte (s : LineSetting) : UInt8 :=
  s.mode.number ||| (if s.wide then 0x08 else 0) ||| (if s.inWindow then 0x10 else 0)

end LineSetting

/-- The setting of a raster line under the current registers. -/
def lineSetting (v : Vic) (line : Nat) : LineSetting :=
  let tall := anyBit (v.register 0x11) 0x08
  let inWindow := v.denLatch &&
    (if tall then 0x33 ≤ line && line < 0xFB else 0x37 ≤ line && line < 0xF7)
  { mode := v.mode
    xScroll := v.register 0x16 &&& 0x07
    border := v.register 0x20 &&& 0x0F
    background := .ofFn fun i => v.register (0x21 + i.val) &&& 0x0F
    inWindow
    wide := anyBit (v.register 0x16) 0x08
    graphics := inWindow && v.displayState }

/-- A line of the picture as the cache keeps it. -/
abbrev Line := CacheLine shape

/-- Whether nothing of a cached line counts under a setting. -/
def isStale (l : Line) (s : LineSetting) : Bool :=
  l.neverRendered || l.mode != s.modeByte || l.xScroll != s.xScroll || l.border != s.border ||
    l.background != s.background || l.displayed != s.graphics

/-- The index of a cell of the current row in the screen matrix. -/
def cellOffset (v : Vic) (cell : Nat) : Nat := (v.row * textColumns + cell) % 0x400

/-- Where the bitmap holds the bytes of the current pixel row: eight bytes apart. -/
def bitmapIndexing (v : Vic) : Indexing := ⟨v.row * textColumns * 8 + v.rc, 8, 0x1FFF⟩

/-- Fetches the bytes of the bitmap for the current pixel row. -/
def fetchBitmap (v : Vic) (memory : VideoMemory) : Vic :=
  { v with
    bitmap := Nat.fold textColumns (fun cell _ m =>
      let offset := v.bitmapIndexing.index cell
      m.put offset (memory.read (v.bitmapBase + offset))) v.bitmap }

/-- The pattern byte of a cell of text on the current pixel row. -/
def fetchPattern (v : Vic) (memory : VideoMemory) (mode : DisplayMode) (screen : Bytes textColumns)
    (cell : Nat) : UInt8 :=
  let code := (screen.byteAt cell &&& mode.codeMask).toNat
  memory.read ((v.charBase + code * 8 + v.rc) % 0x4000)

/-- Brings the cells of a cached line up to date; answers whether one of them changed. -/
def refreshCells (v : Vic) (memory : VideoMemory) (mode : DisplayMode) (stale : Bool) (l : Line) :
    Except Fault (Bool × Line) := do
  let row := Indexing.linear (v.row * textColumns) 0x3FF
  let (screen, screenDamage) ← fillIndexed l.screen 0 textColumns stale v.matrix row
  let (colour, colourDamage) ← fillIndexed l.colour 0 textColumns stale v.colour row
  let (pattern, patternDamage) ←
    if mode.isBitmap then fillIndexed l.pattern 0 textColumns stale v.bitmap v.bitmapIndexing
    else
      let fetched : Bytes textColumns := .ofFn fun i => fetchPattern v memory mode screen i.val
      fillFrom l.pattern 0 textColumns stale (.ofBytes fetched 0)
  return (screenDamage.isSome || colourDamage.isSome || patternDamage.isSome,
    { l with screen, colour, pattern })

/-- The cells of a cached line. -/
def runSource (l : Line) : RunSource := ⟨l.pattern, l.screen, l.colour⟩

/-- A full line whose window holds a run of pixels. -/
def placeRun (run : Nat → UInt8) : Bytes width :=
  .ofFn fun x =>
    if border ≤ x.val ∧ x.val < border + runLength then run (x.val - border) else 0

/-- Whether a column of a full line is foreground, given the foreground of its run. -/
def placeForeground (run : Nat → Bool) (x : Nat) : Bool := border ≤ x && run (x - border)

/-- Fills the window of a line with new pixels, with the sprites laid over them. -/
def fillWindow (s : LineSetting) (sprites : SpriteRow) (stale : Bool) (run : Nat → UInt8)
    (foreground : Nat → Bool) (pixels : Bytes width) :
    Except Fault (Overlay × Bytes width × Damage) := do
  let (laid, fresh) := sprites.overlay (placeRun run) s.left s.right (placeForeground foreground)
  match laid.drawn with
  | some (first, stop) =>
    let (pixels, d1) ← fillFrom pixels s.left first stale (.ofBytes fresh s.left)
    let (pixels, d2) ← fillFrom pixels first stop stale (.ofBytes fresh first)
    let (pixels, d3) ← fillFrom pixels stop s.right stale (.ofBytes fresh stop)
    return (laid, pixels, (d1.merge d2).merge d3)
  | none =>
    let (pixels, damage) ← fillFrom pixels s.left s.right stale (.ofBytes fresh s.left)
    return (laid, pixels, damage)

/-- What rendering a line led to. -/
structure Rendered where
  line : Line
  damage : Damage
  /-- How the sprites lay, if they were laid over the line. -/
  laid : Option Overlay

/-- Renders a line that lies in the display window. -/
def renderWindow (v : Vic) (memory : VideoMemory) (s : LineSetting) (sprites : SpriteRow)
    (stale : Bool) (l : Line) : Except Fault Rendered := do
  let (pixels, leftDamage) ← fillConst l.pixels 0 s.left stale s.border
  let (spriteBytes, spriteDamage) ←
    fillFrom l.sprites 0 spriteStateLength stale (.ofList sprites.state)
  let l := { l with sprites := spriteBytes }
  let (l, redraw) ←
    if s.graphics then do
      let (changed, l) ← refreshCells v memory s.mode stale l
      pure (l, changed || spriteDamage.isSome || !sprites.isEmpty || stale)
    else pure (l, true)
  let (laid, pixels, windowDamage) ←
    if !redraw then pure (none, pixels, none)
    else if s.graphics then do
      let source := runSource l
      let scroll := s.xScroll.toNat
      let (laid, pixels, damage) ← fillWindow s sprites stale
        (graphicsPixel s.mode source s.background scroll)
        (graphicsForeground s.mode source scroll) pixels
      pure (some laid, pixels, damage)
    else do
      let idle := memory.read s.mode.idleAddress
      let (laid, pixels, damage) ← fillWindow s sprites stale
        (idlePixel s.mode idle s.background) (idleForeground s.mode idle) pixels
      pure (some laid, pixels, damage)
  let (pixels, rightDamage) ← fillConst pixels s.right width stale s.border
  return ⟨{ l with pixels }, (leftDamage.merge windowDamage).merge rightDamage, laid⟩

/-- Renders a line that shows nothing but border. -/
def renderBorder (s : LineSetting) (stale : Bool) (l : Line) : Except Fault Rendered := do
  let (pixels, damage) ← fillConst l.pixels 0 width stale s.border
  return ⟨{ l with pixels }, damage, none⟩

/-- The line with its setting noted and its damage added to what it had. -/
def noteSetting (s : LineSetting) (r : Rendered) : Line :=
  { r.line with
    border := s.border
    background := s.background
    mode := s.modeByte
    xScroll := s.xScroll
    displayed := s.graphics
    neverRendered := false
    damage := r.line.damage.merge r.damage }

/-! ## Collisions -/

/-- Adds the collisions of a line. The first since the register was read interrupts. -/
def latchCollisions (v : Vic) (laid : Overlay) : Vic :=
  let v :=
    if laid.spriteCollision = 0 then v
    else { v with
      irqStatus := if v.spriteCollision = 0 then v.irqStatus ||| 0x04 else v.irqStatus
      spriteCollision := v.spriteCollision ||| laid.spriteCollision }
  if laid.backgroundCollision = 0 then v
  else { v with
    irqStatus := if v.backgroundCollision = 0 then v.irqStatus ||| 0x02 else v.irqStatus
    backgroundCollision := v.backgroundCollision ||| laid.backgroundCollision }

/-- Adds the collisions of sprites on a line without graphics, which can only touch each
other. -/
def latchUnseen (v : Vic) (sprites : SpriteRow) : Vic :=
  if sprites.isEmpty then v
  else v.latchCollisions (sprites.overlay (.replicate width 0) 0 0 fun _ => false).1

/-! ## The line as a whole -/

/-- Renders a raster line into the cache; answers the columns that changed. A line that is not
kept only has its collisions. -/
def renderLine (v : Vic) (memory : VideoMemory) (line : Nat) : Except Fault (Damage × Vic) := do
  let sprites := SpriteRow.fetch v.registers line v.screenBase memory
  match v.standard.row? line with
  | none => return (none, v.latchUnseen sprites)
  | some index =>
    let s := v.lineSetting line
    match v.cache.lines[index]? with
    | none => return (none, v)
    | some l =>
      let v := if s.graphics && s.mode.isBitmap then v.fetchBitmap memory else v
      let stale := isStale l s
      let rendered ←
        if s.inWindow then renderWindow v memory s sprites stale l else renderBorder s stale l
      let lines := v.cache.lines.setIfInBounds index (noteSetting s rendered)
      let v := { v with cache := ⟨lines⟩ }
      return (rendered.damage, match rendered.laid with
        | some laid => v.latchCollisions laid
        | none => v.latchUnseen sprites)

end C64.Vic
