import C64.Vic.Line

/-!
# From line to line

`endOfLine` closes a raster line: it fetches a character row where one begins, renders the line
and moves on to the next. `present` hands a completed frame to a sink.
-/

namespace C64.Vic

open Raster

/-- Fetches the screen codes and colours of the current character row. -/
def fetchRow (v : Vic) (memory : VideoMemory) : Vic :=
  let fetch (m : Bytes 0x400) (read : Nat → UInt8) : Bytes 0x400 :=
    Nat.fold textColumns (fun cell _ m =>
      let offset := cellOffset v cell
      m.put offset (read offset)) m
  { v with
    matrix := fetch v.matrix fun offset => memory.read ((v.screenBase + offset) % 0x4000)
    colour := fetch v.colour fun offset => memory.colour offset &&& 0x0F }

/-- What happens on a line before it is rendered: the display may be switched on, and a
character row may begin. -/
def beginLine (v : Vic) (memory : VideoMemory) : Vic :=
  let v :=
    if v.rasterLine = displayStart ∧ anyBit (v.register 0x11) 0x10 then { v with denLatch := true }
    else v
  if v.isBadline then { v.fetchRow memory with displayState := true, rc := 0 } else v

/-- The pixel row moves on; the last one ends the character row. -/
def advanceRow (v : Vic) : Vic :=
  if !v.displayState then v
  else if v.rc = 7 then { v with displayState := false, row := v.row + 1, rc := 0 }
  else { v with rc := v.rc + 1 }

/-- The raster line moves on; answers whether the last one ended a frame. -/
def advanceLine (v : Vic) : Bool × Vic :=
  let ended := v.standard.linesPerFrame ≤ v.rasterLine + 1
  let v :=
    if ended then
      { v with
        rasterLine := 0
        denLatch := false
        displayState := false
        row := 0
        frame := v.frame + 1 }
    else { v with rasterLine := v.rasterLine + 1 }
  (ended,
    if v.rasterLine = v.rasterCompare then { v with irqStatus := v.irqStatus ||| 0x01 } else v)

/-- Closes the current raster line; answers whether it completed a frame. -/
def endOfLine (v : Vic) (memory : VideoMemory) : Except Fault (Bool × Vic) := do
  let (_, v) ← (v.beginLine memory).renderLine memory v.rasterLine
  return v.advanceRow.advanceLine

/-- Closes `n` raster lines, or as many as lead to the end of a frame; answers the frames that
were completed and the badlines on the way. -/
def runLines (memory : VideoMemory) (toFrame : Bool) (n : Nat) (v : Vic) :
    Except Fault (Nat × List Nat × Vic) :=
  go 0 [] n v
where
  /-- The lines behind those that completed some frames and met some badlines, the latest
  first. -/
  go (frames : Nat) (bad : List Nat) : Nat → Vic → Except Fault (Nat × List Nat × Vic)
    | 0, v => .ok (frames, bad.reverse, v)
    | n + 1, v => do
      let bad := if v.isBadline then v.rasterLine :: bad else bad
      let (ended, v) ← v.endOfLine memory
      let frames := if ended then frames + 1 else frames
      if ended && toFrame then return (frames, bad.reverse, v) else go frames bad n v

/-- Hands the completed frame to a sink. What changed is forgotten once the sink has taken the
frame; after a frame that was dropped it goes with the next. -/
def present {σ : Type} [FrameSink σ] (v : Vic) (sink : σ) :
    Except Fault (FrameStatus × Vic × σ) := do
  let (status, sink) ← FrameSink.present sink ⟨v.frame, v.cache⟩
  let v := if status = .presented then { v with cache := v.cache.clearDamage } else v
  return (status, v, sink)

end C64.Vic
