import C64.Raster.Fill

/-!
# The line cache

For every visible line the cache keeps the pixels that were rendered last, and the bytes they
were made of, so that a renderer can tell what has changed. Only changed columns travel to the
screen.
-/

namespace C64.Raster

/-- The measures of a cache. -/
structure Shape where
  /-- Pixels in a line. -/
  width : Nat
  /-- Character cells in a line. -/
  columns : Nat
  /-- Bytes that describe the sprites of a line. -/
  spriteBytes : Nat
deriving DecidableEq

/-- What is kept of one line. -/
structure CacheLine (g : Shape) where
  /-- Colour numbers, one for each pixel. -/
  pixels : Bytes g.width
  /-- Rows of characters or of a bitmap, one for each cell. -/
  pattern : Bytes g.columns
  /-- Colour numbers of the cells. -/
  colour : Bytes g.columns
  /-- Screen codes of the cells. -/
  screen : Bytes g.columns
  border : UInt8
  background : Vector UInt8 4
  /-- The display mode the line was rendered in. -/
  mode : UInt8
  xScroll : UInt8
  /-- What the sprites of the line were made of. -/
  sprites : Bytes g.spriteBytes
  /-- Whether the line held graphics. -/
  displayed : Bool
  /-- Whether the line must be rendered as a whole. -/
  neverRendered : Bool
  /-- What changed since the last frame that was delivered. -/
  damage : Damage

namespace CacheLine

/-- A line that was never rendered. -/
def blank (g : Shape) : CacheLine g where
  pixels := .replicate _ 0
  pattern := .replicate _ 0
  colour := .replicate _ 0
  screen := .replicate _ 0
  border := 0
  background := .replicate 4 0
  mode := 0
  xScroll := 0
  sprites := .replicate _ 0
  displayed := false
  neverRendered := true
  damage := none

/-- Writes fresh pixels from a column on, and widens the damage by what changed. The column
behind them must be a machine word. -/
def paint {g : Shape} (l : CacheLine g) (start : Nat) (fresh : List UInt8) :
    Except Fault (CacheLine g) := do
  let stop := start + fresh.length
  if wordLimit ≤ stop then throw .overflow
  let (pixels, damage) ← fillFrom l.pixels start stop l.neverRendered (.ofList fresh)
  return { l with pixels, neverRendered := false, damage := l.damage.merge damage }

end CacheLine

/-- A changed part of a line. -/
structure DirtyLine where
  line : Nat
  span : Span
  /-- The pixels of the span. -/
  pixels : List UInt8
deriving DecidableEq

/-- The lines of a screen. -/
structure Cache (g : Shape) where
  lines : Array (CacheLine g)

namespace Cache

variable {g : Shape}

/-- A cache of `height` lines that were never rendered. -/
def blank (g : Shape) (height : Nat) : Cache g := ⟨.ofFn fun _ : Fin height => .blank g⟩

/-- The number of lines. -/
def height (c : Cache g) : Nat := c.lines.size

/-- Asks for every line to be rendered as a whole. -/
def invalidate (c : Cache g) : Cache g :=
  ⟨c.lines.map fun l => { l with neverRendered := true }⟩

/-- Forgets what changed. -/
def clearDamage (c : Cache g) : Cache g := ⟨c.lines.map fun l => { l with damage := none }⟩

/-- The changed lines with their numbers, from the top down. The changed part must lie inside
the line. -/
def damaged (c : Cache g) : Except Fault (List (Nat × Span × CacheLine g)) :=
  let found := c.lines.toList.zipIdx.filterMap fun (l, y) => l.damage.map fun span => (y, span, l)
  if found.all fun (_, span, _) => span.last < g.width then .ok found else .error .outOfBounds

/-- The changed lines with their pixels, from the top down. -/
def dirtyLines (c : Cache g) : Except Fault (List DirtyLine) := do
  return (← c.damaged).map fun (y, span, l) =>
    ⟨y, span, (List.range span.length).map fun i => l.pixels.byteAt (span.first + i)⟩

/-- The number of changed lines. -/
def dirtyCount (c : Cache g) : Except Fault Nat := return (← c.damaged).length

end Cache

end C64.Raster
