/-!
# Video standards

The measures of the two video standards: cycles in a line, lines in a frame, and which lines
are kept.
-/

namespace C64

/-- The standard a video chip works to. -/
inductive VideoStandard where
  | pal | ntsc
deriving DecidableEq

namespace VideoStandard

def cyclesPerLine : VideoStandard → Nat
  | pal => 63
  | ntsc => 65

def linesPerFrame : VideoStandard → Nat
  | pal => 312
  | ntsc => 263

def cyclesPerFrame (s : VideoStandard) : Nat := s.cyclesPerLine * s.linesPerFrame

/-- The first raster line that is kept, the top of the upper border. -/
def firstVisibleLine : VideoStandard → Nat
  | pal => 6
  | ntsc => 16

def visibleLines : VideoStandard → Nat
  | pal => 284
  | ntsc => 247

/-- Cycles of the processor in a second. -/
def cpuHz : VideoStandard → Nat
  | pal => 985248
  | ntsc => 1022727

/-- The frequency of the mains, which the interface chips' clocks run on. -/
def todHz : VideoStandard → Nat
  | pal => 50
  | ntsc => 60

/-- The row of the picture that a raster line is kept in. -/
def row? (s : VideoStandard) (line : Nat) : Option Nat :=
  if s.firstVisibleLine ≤ line ∧ line < s.firstVisibleLine + s.visibleLines then
    some (line - s.firstVisibleLine)
  else none

end VideoStandard

end C64
