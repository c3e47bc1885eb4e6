import C64.Raster.Sink

/-!
# Colours

The sixteen colours of the video chip, as alpha, red, green and blue.
-/

namespace C64.Vic

/-- Black, white, red, cyan, purple, green, blue, yellow, orange, brown, light red, dark grey,
grey, light green, light blue and light grey, as measured on a machine. -/
def palette : Raster.Palette := #v[
  0xFF000000, 0xFFFFFFFF, 0xFF883932, 0xFF67B6BD,
  0xFF8B3F96, 0xFF55A049, 0xFF40318D, 0xFFBFCE72,
  0xFF8B5429, 0xFF574200, 0xFFB86962, 0xFF505050,
  0xFF787878, 0xFF94E089, 0xFF7868C0, 0xFF9F9F9F]

end C64.Vic
