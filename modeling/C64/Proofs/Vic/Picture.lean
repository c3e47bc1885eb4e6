import C64.Proofs.Raster.Fill
import C64.Proofs.Vic.Overlay
import C64.Vic.Line

/-!
# What a line shows

The pixels and the collisions of a line, made from the registers and memory alone. Nothing here
looks at the cache: `C64.Proofs.Vic.Rendering` shows that the renderer, which leaves out work
where it finds nothing changed, arrives at the same pixels.
-/

namespace C64.Vic

open Raster

/-! ## Behind the sprites -/

/-- The run of pixels behind the sprites, and which of them are foreground. -/
structure Backdrop where
  pixel : Nat → UInt8
  foreground : Nat → Bool

/-- The backdrop that cells make. -/
def cellBackdrop (s : LineSetting) (source : RunSource) : Backdrop where
  pixel := graphicsPixel s.mode source s.background s.xScroll.toNat
  foreground := graphicsForeground s.mode source s.xScroll.toNat

/-- The backdrop of a line without graphics. -/
def idleBackdrop (s : LineSetting) (memory : VideoMemory) : Backdrop where
  pixel := idlePixel s.mode (memory.read s.mode.idleAddress) s.background
  foreground := idleForeground s.mode (memory.read s.mode.idleAddress)

/-- The cells of the current pixel row. -/
def cells (v : Vic) (memory : VideoMemory) (mode : DisplayMode) : RunSource :=
  let screen : Bytes textColumns := .ofFn fun i => v.matrix.byteAt (v.cellOffset i.val)
  { screen
    colour := .ofFn fun i => v.colour.byteAt (v.cellOffset i.val)
    pattern := .ofFn fun i =>
      if mode.isBitmap then memory.read (v.bitmapBase + v.bitmapIndexing.index i.val)
      else fetchPattern v memory mode screen i.val }

/-- The backdrop of a line under a setting. -/
def backdrop (v : Vic) (memory : VideoMemory) (s : LineSetting) : Backdrop :=
  if s.graphics then cellBackdrop s (v.cells memory s.mode) else idleBackdrop s memory

/-! ## The whole line -/

/-- The sprites laid over a backdrop. -/
def laidOver (s : LineSetting) (sprites : SpriteRow) (b : Backdrop) : Overlay × Bytes width :=
  sprites.overlay (placeRun b.pixel) s.left s.right (placeForeground b.foreground)

/-- A window of pixels between borders. -/
def framed (s : LineSetting) (window : Bytes width) : Bytes width :=
  .ofFn fun x => if s.left ≤ x.val ∧ x.val < s.right then window.get x else s.border

/-- The sprites of a raster line. -/
def spritesOn (v : Vic) (memory : VideoMemory) (line : Nat) : SpriteRow :=
  .fetch v.registers line v.screenBase memory

/-- The pixels of a raster line. -/
def picture (v : Vic) (memory : VideoMemory) (line : Nat) : Bytes width :=
  let s := v.lineSetting line
  if s.inWindow then
    framed s (laidOver s (v.spritesOn memory line) (v.backdrop memory s)).2
  else .replicate width s.border

/-- How the sprites of a raster line touch. Where no graphics can be seen they only touch each
other. -/
def touching (v : Vic) (memory : VideoMemory) (line : Nat) : Overlay :=
  let s := v.lineSetting line
  let sprites := v.spritesOn memory line
  if s.inWindow && (v.standard.row? line).isSome then
    (laidOver s sprites (v.backdrop memory s)).1
  else (sprites.overlay (.replicate width 0) 0 0 fun _ => false).1

/-! ## The window -/

theorem LineSetting.left_le_right (s : LineSetting) : s.left ≤ s.right := by
  unfold left right
  cases s.wide <;> decide

theorem LineSetting.right_le_width (s : LineSetting) : s.right ≤ width := by
  unfold right
  cases s.wide <;> decide

theorem laidOver_of_isEmpty {sprites : SpriteRow} (h : sprites.isEmpty = true) (s : LineSetting)
    (b : Backdrop) : laidOver s sprites b = (⟨none, 0, 0⟩, placeRun b.pixel) :=
  SpriteRow.overlay_of_isEmpty h _ _ _ _

theorem laidOver_bounds {s : LineSetting} {sprites : SpriteRow} {b : Backdrop} {first stop : Nat}
    (h : (laidOver s sprites b).1.drawn = some (first, stop)) :
    s.left ≤ first ∧ first < stop ∧ stop ≤ s.right := by
  unfold laidOver at h
  exact SpriteRow.drawn_bounds h

/-- A run from a later column goes on where one from an earlier column does. -/
theorem ofBytes_byte_later {n a c : Nat} (m : Bytes n) (h : a ≤ c) :
    (Run.ofBytes m c).byte = fun i => (Run.ofBytes m a).byte (c - a + i) := by
  funext i
  simp only [Run.ofBytes]
  congr 1
  omega

/-- Where a window is filled in three runs, they meet. -/
theorem fillWindow_eq (s : LineSetting) (sprites : SpriteRow) (stale : Bool) (b : Backdrop)
    (pixels : Bytes width) :
    ∃ damage, fillWindow s sprites stale b.pixel b.foreground pixels =
      .ok ((laidOver s sprites b).1,
        filled pixels s.left s.right fun i => (laidOver s sprites b).2.byteAt (s.left + i),
        damage) := by
  have hle := s.left_le_right
  have hright := s.right_le_width
  unfold fillWindow
  simp only []
  rw [← laidOver]
  generalize hlaid : laidOver s sprites b = laid
  obtain ⟨laid, fresh⟩ := laid
  have run (start stop : Nat) (hstop : stop ≤ s.right) (line : Bytes width) :=
    fillFrom_fills line start stop stale (.ofBytes fresh start)
      (by simp only [Run.ofBytes]; omega) (by omega)
  cases hdrawn : laid.drawn with
  | none =>
    obtain ⟨damage, hfill⟩ := run s.left s.right (Nat.le_refl _) pixels
    simp only [hfill.eq_ok]
    exact ⟨damage, rfl⟩
  | some d =>
    obtain ⟨first, stop⟩ := d
    have hd : (laidOver s sprites b).1.drawn = some (first, stop) := by rw [hlaid]; exact hdrawn
    obtain ⟨hfirst, hlt, hstop⟩ := laidOver_bounds hd
    obtain ⟨d1, hfill1⟩ := run s.left first (by omega) pixels
    obtain ⟨d2, hfill2⟩ := run first stop hstop
      (filled pixels s.left first (Run.ofBytes fresh s.left).byte)
    obtain ⟨d3, hfill3⟩ := run stop s.right (Nat.le_refl _)
      (filled (filled pixels s.left first (Run.ofBytes fresh s.left).byte) first stop
        (Run.ofBytes fresh first).byte)
    simp only [hfill1.eq_ok, hfill2.eq_ok, hfill3.eq_ok, bind, Except.bind]
    refine ⟨(d1.merge d2).merge d3, ?_⟩
    rw [ofBytes_byte_later fresh hfirst, filled_filled _ hfirst (Nat.le_of_lt hlt),
      ofBytes_byte_later fresh (Nat.le_trans hfirst (Nat.le_of_lt hlt)),
      filled_filled _ (Nat.le_trans hfirst (Nat.le_of_lt hlt)) hstop]
    rfl

/-- Filling the border, the window and the border again makes the whole line. -/
theorem framed_eq (s : LineSetting) (line window : Bytes width) :
    filled (filled (filled line 0 s.left fun _ => s.border) s.left s.right
        fun i => window.byteAt (s.left + i)) s.right width (fun _ => s.border) =
      framed s window := by
  have hle := s.left_le_right
  have hright := s.right_le_width
  ext x
  have hx := x.isLt
  rw [get_filled, get_filled, get_filled, framed, Bytes.get_ofFn]
  by_cases hin : s.left ≤ x.val ∧ x.val < s.right
  · rw [if_neg (by omega), if_pos hin, if_pos hin, Nat.add_sub_cancel' hin.1,
      Bytes.byteAt_of_lt _ hx]
  · by_cases hafter : s.right ≤ x.val
    · rw [if_pos ⟨hafter, hx⟩, if_neg hin]
    · rw [if_neg (by omega), if_neg hin, if_pos (by omega), if_neg hin]

/-- Where the window already holds its pixels only the border has to be filled. -/
theorem framed_of_window (s : LineSetting) {line window : Bytes width}
    (h : ∀ x : Fin width, s.left ≤ x.val ∧ x.val < s.right → line.get x = window.get x) :
    filled (filled line 0 s.left fun _ => s.border) s.right width (fun _ => s.border) =
      framed s window := by
  have kept : filled (filled line 0 s.left fun _ => s.border) s.left s.right
      (fun i => window.byteAt (s.left + i)) = filled line 0 s.left fun _ => s.border := by
    ext x
    rw [get_filled]
    by_cases hin : s.left ≤ x.val ∧ x.val < s.right
    · rw [if_pos hin, get_filled, if_neg (by omega), h x hin, Nat.add_sub_cancel' hin.1,
        Bytes.byteAt_of_lt _ x.isLt]
    · rw [if_neg hin]
  rw [← framed_eq s line window, kept]

theorem backdrop_of_graphics (v : Vic) (memory : VideoMemory) {s : LineSetting}
    (h : s.graphics = true) : v.backdrop memory s = cellBackdrop s (v.cells memory s.mode) := by
  unfold backdrop
  rw [if_pos h]

theorem backdrop_of_idle (v : Vic) (memory : VideoMemory) {s : LineSetting}
    (h : s.graphics = false) : v.backdrop memory s = idleBackdrop s memory := by
  unfold backdrop
  rw [if_neg (by simp [h])]

end C64.Vic
