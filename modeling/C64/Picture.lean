import C64.Raster.Sink

/-!
# Pictures

A picture is what a sink with the whole screen holds after a frame.
-/

namespace C64

/-- A picture in full colour. -/
structure Picture where
  width : Nat
  height : Nat
  /-- Red, green, blue and alpha of each pixel, row after row. -/
  rgba : ByteArray

/-- The picture of the screen, once a frame was taken. -/
def Raster.FullFrame.picture? (s : FullFrame) : Option Picture :=
  if s.frames = 0 then none else some ⟨s.width, s.height, s.rgba⟩

end C64
