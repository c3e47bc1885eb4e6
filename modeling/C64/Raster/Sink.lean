import C64.Raster.Cache

/-!
# Frame sinks

A sink takes completed frames. One of them throws every frame away, one keeps a copy of the whole
screen in full colour, and one hands frames to a host that takes them when it has time.
-/

namespace C64.Raster

/-- A completed frame. -/
structure Frame (g : Shape) where
  number : Nat
  cache : Cache g

/-- What became of a frame. -/
inductive FrameStatus where
  | presented
  /-- The consumer was not ready. -/
  | dropped
deriving DecidableEq

/-- A receiver of completed frames. -/
class FrameSink (σ : Type) where
  /-- Takes a frame. -/
  present {g : Shape} : σ → Frame g → Except Fault (FrameStatus × σ)
  /-- Whether the next frame must hold every line; the request is forgotten. -/
  takeRefresh : σ → Bool × σ := fun s => (false, s)

/-- A sink that takes every frame and keeps nothing of it. -/
structure NullSink where

instance : FrameSink NullSink where
  present s _ := .ok (.presented, s)

/-! ## A copy of the screen -/

/-- Sixteen colours, each of alpha, red, green and blue from the highest byte down. -/
abbrev Palette := Vector UInt32 16

namespace Palette

/-- Red, green, blue and alpha of the colour in the low nybble of a pixel. -/
def rgba (p : Palette) (pixel : UInt8) : List UInt8 :=
  let c := p.get (Fin.ofNat 16 pixel.toNat)
  [(c >>> 16).toUInt8, (c >>> 8).toUInt8, c.toUInt8, (c >>> 24).toUInt8]

end Palette

/-- A sink that keeps the whole screen, patched with every frame. -/
structure FullFrame where
  palette : Palette
  width : Nat
  height : Nat
  /-- Four bytes for each pixel, row after row. -/
  rgba : ByteArray
  /-- Frames taken so far. -/
  frames : Nat
  /-- Whether every line is wanted in the next frame. -/
  refresh : Bool

/-- Writes bytes one after another from index `i` on, as far as there is room. -/
def patch (target : ByteArray) (i : Nat) (bytes : List UInt8) : ByteArray :=
  (bytes.foldl (fun (out, i) b =>
    (if h : i < out.size then out.set i b h else out, i + 1)) (target, i)).1

/-- Zeros. -/
def zeros (n : Nat) : ByteArray := ⟨Array.replicate n 0⟩

namespace FullFrame

/-- A sink that has taken no frame. -/
def new (palette : Palette) : FullFrame := ⟨palette, 0, 0, .empty, 0, true⟩

/-- Changes the colours; the next frame must hold every line. -/
def setPalette (s : FullFrame) (palette : Palette) : FullFrame :=
  { s with palette, refresh := true }

/-- The four bytes of a pixel. -/
def pixel? (s : FullFrame) (x y : Nat) : Option (List UInt8) :=
  if x < s.width ∧ y < s.height then
    let i := (y * s.width + x) * 4
    some ((List.range 4).map fun k => s.rgba.data[i + k]?.getD 0)
  else none

/-- Makes room for a screen of another size, all of it zero. -/
def resize (s : FullFrame) (width height : Nat) : FullFrame :=
  if width = s.width ∧ height = s.height then s
  else { s with width, height, rgba := zeros (width * height * 4), refresh := true }

/-- Writes the pixels of a changed line. -/
def patchLine (s : FullFrame) (d : DirtyLine) : FullFrame :=
  let ⟨palette, width, height, rgba, frames, refresh⟩ := s
  let start := (d.line * width + d.span.first) * 4
  ⟨palette, width, height, patch rgba start (d.pixels.flatMap palette.rgba), frames, refresh⟩

/-- Takes a frame. -/
def present {g : Shape} (s : FullFrame) (f : Frame g) : Except Fault FullFrame := do
  let dirty ← f.cache.dirtyLines
  let s := dirty.foldl patchLine (s.resize g.width f.cache.height)
  return { s with frames := s.frames + 1 }

instance : FrameSink FullFrame where
  present s f := return (.presented, ← s.present f)
  takeRefresh s := (s.refresh, { s with refresh := false })

end FullFrame

/-! ## A channel to the host -/

/-- A copy of what a frame changed. -/
structure Snapshot where
  number : Nat
  width : Nat
  height : Nat
  lines : List DirtyLine
deriving DecidableEq

namespace Snapshot

/-- The snapshot of a frame. -/
def ofFrame {g : Shape} (f : Frame g) : Except Fault Snapshot :=
  return ⟨f.number, g.width, f.cache.height, ← f.cache.dirtyLines⟩

/-- Brings a changed line into a screen of colour numbers, if it fits in. -/
def applyLine (width : Nat) (screen : ByteArray) (d : DirtyLine) : ByteArray :=
  let start := d.line * width + d.span.first
  if start + d.pixels.length ≤ screen.size then patch screen start d.pixels else screen

/-- Brings the snapshot into a screen of colour numbers. -/
def apply (s : Snapshot) (screen : ByteArray) : ByteArray :=
  s.lines.foldl (applyLine s.width) screen

end Snapshot

/-- A channel that holds at most one snapshot. A frame that finds the last one still waiting,
or nobody at the other end, is dropped. -/
structure FrameChannel where
  waiting : Option Snapshot
  /-- Whether there is somebody at the other end. -/
  connected : Bool
  /-- Frames dropped so far. -/
  dropped : Nat

namespace FrameChannel

/-- An empty channel with a host at its end. -/
def new : FrameChannel := ⟨none, true, 0⟩

/-- Takes a frame or drops it. -/
def present {g : Shape} (c : FrameChannel) (f : Frame g) :
    Except Fault (FrameStatus × FrameChannel) := do
  let snapshot ← Snapshot.ofFrame f
  if c.connected ∧ c.waiting.isNone then return (.presented, { c with waiting := some snapshot })
  else return (.dropped, { c with dropped := c.dropped + 1 })

/-- The host takes the snapshot that waits. -/
def receive (c : FrameChannel) : Option Snapshot × FrameChannel :=
  (c.waiting, { c with waiting := none })

/-- The host goes away; a snapshot still waiting is lost. -/
def disconnect (c : FrameChannel) : FrameChannel :=
  { c with waiting := none, connected := false }

instance : FrameSink FrameChannel where
  present := present

end FrameChannel

end C64.Raster
