import C64.Proofs.Vic.Picture
import C64.Proofs.Vic.SpriteBytes

/-!
# Rendering with a cache

A cached line is `Coherent` if its window holds what its own notes make: the setting, the sprite
bytes and the cells kept with it. Rendering a coherent line leaves the picture of the line and a
coherent line (`renderLine_kept`), also where it leaves the window alone: with nothing damaged the
notes are those of the picture, and the sprites are the same as then.
-/

namespace C64.Vic

open Raster

/-! ## The notes of a line -/

/-- The bytes kept of the sprites of a line. -/
def spriteBytes (sprites : SpriteRow) : Bytes spriteStateLength :=
  .ofFn fun i => (Run.ofList sprites.state).byte i.val

/-- What a line with graphics holds was made under a setting, with sprites laid over its cells. -/
structure ShowsNotes (l : Line) (s : LineSetting) (sprites : SpriteRow) : Prop where
  graphics : s.graphics = true
  mode : l.mode = s.modeByte
  xScroll : l.xScroll = s.xScroll
  border : l.border = s.border
  background : l.background = s.background
  spriteBytes : l.sprites = spriteBytes sprites
  window : ∀ x : Fin width, s.left ≤ x.val ∧ x.val < s.right →
    l.pixels.get x = (laidOver s sprites (cellBackdrop s (runSource l))).2.get x

/-- A line whose notes count, if it held graphics, shows what they make. -/
def Coherent (l : Line) : Prop :=
  l.neverRendered = false → l.displayed = true → ∃ s sprites, ShowsNotes l s sprites

theorem spriteBytes_injective : Function.Injective spriteBytes := by
  intro r r' h
  apply SpriteRow.state_injective
  apply List.ext_getElem (by rw [r.length_state, r'.length_state])
  intro i hi hi'
  have hlt : i < spriteStateLength := by rw [← r.length_state]; exact hi
  have hbyte := congrArg (fun m => m.get ⟨i, hlt⟩) h
  simp only [spriteBytes, Bytes.get_ofFn, Run.ofList, List.getElem?_toArray] at hbyte
  rw [List.getElem?_eq_getElem hi, List.getElem?_eq_getElem hi'] at hbyte
  exact hbyte

/-! ### The mode byte -/

theorem DisplayMode.number_injective {m m' : DisplayMode} (h : m.number = m'.number) : m = m' := by
  revert h
  cases m <;> cases m' <;> decide

theorem modeByte_fields (s : LineSetting) :
    s.modeByte &&& 0x07 = s.mode.number ∧ anyBit s.modeByte 0x08 = s.wide ∧
      anyBit s.modeByte 0x10 = s.inWindow := by
  unfold LineSetting.modeByte
  cases s.mode <;> cases s.wide <;> cases s.inWindow <;> decide

/-- The mode byte tells mode and window. -/
theorem modeByte_injective {s s' : LineSetting} (h : s.modeByte = s'.modeByte) :
    s.mode = s'.mode ∧ s.wide = s'.wide ∧ s.inWindow = s'.inWindow := by
  obtain ⟨hmode, hwide, hwindow⟩ := modeByte_fields s
  obtain ⟨hmode', hwide', hwindow'⟩ := modeByte_fields s'
  rw [h] at hmode hwide hwindow
  exact ⟨DisplayMode.number_injective (hmode.symm.trans hmode'), hwide.symm.trans hwide',
    hwindow.symm.trans hwindow'⟩

/-- A coherent line that is not stale and has graphics was made under the same setting. -/
theorem Coherent.showsNotes {l : Line} {s : LineSetting} (hl : Coherent l)
    (hstale : isStale l s = false) (hgraphics : s.graphics = true) :
    ∃ sprites, ShowsNotes l s sprites := by
  unfold isStale at hstale
  simp only [Bool.or_eq_false_iff, bne_eq_false_iff_eq] at hstale
  obtain ⟨⟨⟨⟨⟨hnever, hmode⟩, hscroll⟩, hborder⟩, hbackground⟩, hdisplayed⟩ := hstale
  obtain ⟨s', sprites, notes⟩ := hl hnever (hdisplayed.trans hgraphics)
  obtain ⟨hm, hw, hin⟩ := modeByte_injective (notes.mode.symm.trans hmode)
  have same : s' = s := by
    cases s'
    cases s
    simp only [LineSetting.mk.injEq]
    exact ⟨hm, notes.xScroll.symm.trans hscroll, notes.border.symm.trans hborder,
      notes.background.symm.trans hbackground, hin, hw, notes.graphics.trans hgraphics.symm⟩
  exact ⟨sprites, same ▸ notes⟩

/-! ## The cells -/

/-- The row's cells lie in the matrix one after another. -/
theorem linear_index (v : Vic) (i : Nat) :
    (Indexing.linear (v.row * textColumns) 0x3FF).index i = v.cellOffset i := by
  unfold Indexing.index Indexing.linear cellOffset
  simp only [Nat.mul_one]
  exact Nat.and_two_pow_sub_one_eq_mod _ 10

theorem bitmapIndexing_index_lt (v : Vic) (i : Nat) : v.bitmapIndexing.index i < 0x2000 :=
  Nat.lt_of_le_of_lt Nat.and_le_right (by decide : 0x1FFF < 0x2000)

/-- A buffer brought up to date at some places holds what was read there, also where two of them
are one. -/
theorem byteAt_fold_put {n : Nat} (m : Bytes n) (place : Nat → Nat) (read : Nat → UInt8)
    (hplace : ∀ i, place i < n) (k i : Nat) (hi : i < k) :
    (Nat.fold k (fun cell _ m => m.put (place cell) (read (place cell))) m).byteAt (place i) =
      read (place i) := by
  induction k with
  | zero => omega
  | succ k ih =>
    rw [Nat.fold_succ, Bytes.byteAt_put _ (hplace k)]
    split
    · next h => rw [h]
    · next h =>
      have : i ≠ k := fun he => h (by rw [he])
      exact ih (by omega)

theorem byteAt_fetchBitmap (v : Vic) (memory : VideoMemory) {i : Nat} (hi : i < textColumns) :
    (v.fetchBitmap memory).bitmap.byteAt (v.bitmapIndexing.index i) =
      memory.read (v.bitmapBase + v.bitmapIndexing.index i) :=
  byteAt_fold_put v.bitmap v.bitmapIndexing.index (fun offset => memory.read (v.bitmapBase + offset))
    v.bitmapIndexing_index_lt textColumns i hi

/-- The chip with the bitmap's bytes at hand, if the line is to be made of them. -/
def prepared (v : Vic) (memory : VideoMemory) (s : LineSetting) : Vic :=
  if s.graphics && s.mode.isBitmap then v.fetchBitmap memory else v

/-- The cells of a line brought up to date. -/
def withCells (l : Line) (source : RunSource) : Line :=
  { l with screen := source.screen, colour := source.colour, pattern := source.pattern }

theorem prepared_bitmap (v : Vic) (memory : VideoMemory) {s : LineSetting}
    (hgraphics : s.graphics = true) (hbitmap : s.mode.isBitmap = true) :
    v.prepared memory s = v.fetchBitmap memory := by
  unfold prepared
  rw [hgraphics, hbitmap]
  rfl

theorem prepared_text (v : Vic) (memory : VideoMemory) {s : LineSetting}
    (hbitmap : s.mode.isBitmap = false) : v.prepared memory s = v := by
  unfold prepared
  rw [hbitmap, Bool.and_false]
  rfl

theorem prepared_eq (v : Vic) (memory : VideoMemory) (s : LineSetting) :
    v.prepared memory s = { v with bitmap := (v.prepared memory s).bitmap } := by
  unfold prepared fetchBitmap
  split <;> rfl

theorem prepared_row (v : Vic) (memory : VideoMemory) (s : LineSetting) :
    (v.prepared memory s).row = v.row := by
  rw [prepared_eq]

theorem prepared_matrix (v : Vic) (memory : VideoMemory) (s : LineSetting) :
    (v.prepared memory s).matrix = v.matrix := by
  rw [prepared_eq]

theorem prepared_colour (v : Vic) (memory : VideoMemory) (s : LineSetting) :
    (v.prepared memory s).colour = v.colour := by
  rw [prepared_eq]

/-- Forty bytes of a buffer, from where the current row begins. -/
theorem fillRow_fills (v : Vic) (m : Bytes 0x400) (stale : Bool) {n : Nat} (line : Bytes n)
    (hn : textColumns ≤ n) (hrow : v.row < 0x200) :
    ∃ damage, FillsTo
      (fillIndexed line 0 textColumns stale m (.linear (v.row * textColumns) 0x3FF))
      line 0 textColumns (fun i => m.byteAt (v.cellOffset i)) damage := by
  obtain ⟨damage, hfill⟩ := fillIndexed_fills line 0 textColumns stale m
    (.linear (v.row * textColumns) 0x3FF) (show 0x3FF < 0x400 by decide) hn (by
      show v.row * 40 + (40 - 0 - 1) * 1 < 0x10000000000000000
      omega)
  refine ⟨damage, hfill.congr fun i _ => ?_⟩
  rw [v.linear_index]

/-- The pattern byte of a cell of the picture, from the bitmap or from the font. -/
def patternByte (v : Vic) (memory : VideoMemory) (mode : DisplayMode) (i : Nat) : UInt8 :=
  if mode.isBitmap then memory.read (v.bitmapBase + v.bitmapIndexing.index i)
  else fetchPattern v memory mode (v.cells memory mode).screen i

theorem fillPattern_fills (v : Vic) (memory : VideoMemory) {s : LineSetting} (stale : Bool)
    {n : Nat} (line : Bytes n) (hn : textColumns ≤ n) (hgraphics : s.graphics = true)
    (hrow : v.row < 0x200) (hrc : v.rc < 8) :
    ∃ damage, FillsTo
      (if s.mode.isBitmap then
        fillIndexed line 0 textColumns stale (v.prepared memory s).bitmap
          (v.prepared memory s).bitmapIndexing
      else
        fillFrom line 0 textColumns stale (.ofBytes (.ofFn fun i =>
          fetchPattern (v.prepared memory s) memory s.mode (v.cells memory s.mode).screen i.val :
            Bytes textColumns) 0))
      line 0 textColumns (v.patternByte memory s.mode) damage := by
  cases hbitmap : s.mode.isBitmap with
  | true =>
    rw [if_pos rfl, v.prepared_bitmap memory hgraphics hbitmap]
    obtain ⟨damage, hfill⟩ := fillIndexed_fills line 0 textColumns stale
      (v.fetchBitmap memory).bitmap (v.fetchBitmap memory).bitmapIndexing
      (show 0x1FFF < 0x2000 by decide) hn (by
        show v.row * 40 * 8 + v.rc + (40 - 0 - 1) * 8 < 0x10000000000000000
        omega)
    refine ⟨damage, hfill.congr fun i hi => ?_⟩
    rw [Nat.zero_add] at hi
    unfold patternByte
    rw [hbitmap, if_pos rfl]
    exact v.byteAt_fetchBitmap memory hi
  | false =>
    rw [if_neg (by simp), v.prepared_text memory hbitmap]
    obtain ⟨damage, hfill⟩ := fillFrom_fills line 0 textColumns stale
      (.ofBytes (.ofFn fun i =>
        fetchPattern v memory s.mode (v.cells memory s.mode).screen i.val : Bytes textColumns) 0)
      (Nat.le_refl _) hn
    refine ⟨damage, hfill.congr fun i hi => ?_⟩
    rw [Nat.zero_add] at hi
    unfold patternByte
    rw [hbitmap, if_neg (by simp)]
    simp only [Run.ofBytes, Nat.zero_add]
    rw [Bytes.byteAt_of_lt _ hi, Bytes.get_ofFn]

theorem refreshCells_eq (v : Vic) (memory : VideoMemory) {s : LineSetting} (stale : Bool) (l : Line)
    (hgraphics : s.graphics = true) (hrow : v.row < 0x200) (hrc : v.rc < 8) :
    ∃ changed, refreshCells (v.prepared memory s) memory s.mode stale l =
        .ok (changed, withCells l (v.cells memory s.mode)) ∧
      (changed = false → withCells l (v.cells memory s.mode) = l) := by
  obtain ⟨screenDamage, hscreen⟩ :=
    fillRow_fills v v.matrix stale l.screen (Nat.le_refl _) hrow
  obtain ⟨colourDamage, hcolour⟩ :=
    fillRow_fills v v.colour stale l.colour (Nat.le_refl _) hrow
  obtain ⟨patternDamage, hpattern⟩ := fillPattern_fills v memory stale l.pattern
    (Nat.le_refl _) hgraphics hrow hrc
  obtain ⟨hscreen, noScreen⟩ := hscreen.whole (v.cells memory s.mode).screen
    fun i => Bytes.get_ofFn _ i
  obtain ⟨hcolour, noColour⟩ := hcolour.whole (v.cells memory s.mode).colour
    fun i => Bytes.get_ofFn _ i
  obtain ⟨hpattern, noPattern⟩ := hpattern.whole (v.cells memory s.mode).pattern
    fun i => Bytes.get_ofFn _ i
  refine ⟨screenDamage.isSome || colourDamage.isSome || patternDamage.isSome, ?_, ?_⟩
  · unfold refreshCells
    simp only [prepared_row, prepared_matrix, prepared_colour]
    rw [hscreen, ok_bind]
    simp only []
    rw [hcolour, ok_bind]
    cases hbitmap : s.mode.isBitmap with
    | true =>
      simp only [hbitmap, if_true] at hpattern ⊢
      rw [hpattern, ok_bind]
      rfl
    | false =>
      simp only [hbitmap, Bool.false_eq_true, if_false] at hpattern ⊢
      rw [hpattern, ok_bind]
      rfl
  · intro hnone
    simp only [Bool.or_eq_false_iff, Option.isSome_eq_false_iff, Option.isNone_iff_eq_none] at hnone
    obtain ⟨⟨hs, hc⟩, hp⟩ := hnone
    unfold withCells
    rw [noScreen hs, noColour hc, noPattern hp]

/-! ## The window -/

/-- A line behind a fill of its window: the picture's pixels and the notes they were made from. -/
structure Redrawn (v : Vic) (memory : VideoMemory) (s : LineSetting) (sprites : SpriteRow)
    (r : Rendered) : Prop where
  pixels : r.line.pixels = framed s (laidOver s sprites (v.backdrop memory s)).2
  spriteBytes : r.line.sprites = spriteBytes sprites
  source : s.graphics = true → runSource r.line = v.cells memory s.mode
  laid : r.laid = some (laidOver s sprites (v.backdrop memory s)).1 ∨
    r.laid = none ∧ sprites.isEmpty = true

/-- The pixels of a window that is left alone are those of the picture, with sprites or without. -/
theorem window_kept {l : Line} {s : LineSetting} {sprites kept : SpriteRow}
    (notes : ShowsNotes l s kept) (hbytes : l.sprites = spriteBytes sprites)
    (x : Fin width) (hx : s.left ≤ x.val ∧ x.val < s.right) :
    l.pixels.get x = (laidOver s sprites (cellBackdrop s (runSource l))).2.get x := by
  rw [← spriteBytes_injective (notes.spriteBytes.symm.trans hbytes)]
  exact notes.window x hx

/-- A window drawn over its backdrop, and the border to the right of it. -/
theorem drawWindow_eq (s : LineSetting) (sprites : SpriteRow) (stale : Bool) (b : Backdrop)
    (line : Bytes width) :
    ∃ window windowDamage rightDamage,
      fillWindow s sprites stale b.pixel b.foreground (filled line 0 s.left fun _ => s.border) =
        .ok ((laidOver s sprites b).1, window, windowDamage) ∧
      fillConst window s.right width stale s.border =
        .ok (framed s (laidOver s sprites b).2, rightDamage) := by
  obtain ⟨windowDamage, hwindow⟩ := fillWindow_eq s sprites stale b
    (filled line 0 s.left fun _ => s.border)
  obtain ⟨rightDamage, hright⟩ := fillConst_fills
    (filled (filled line 0 s.left fun _ => s.border) s.left s.right
      fun i => (laidOver s sprites b).2.byteAt (s.left + i)) s.right width stale s.border
    (Nat.le_refl _)
  refine ⟨_, windowDamage, rightDamage, hwindow, ?_⟩
  rw [hright.eq_ok, framed_eq]

theorem renderWindow_eq (v : Vic) (memory : VideoMemory) (s : LineSetting) (sprites : SpriteRow)
    {l : Line} (hl : Coherent l) (hrow : v.row < 0x200) (hrc : v.rc < 8) :
    ∃ r, renderWindow (v.prepared memory s) memory s sprites (isStale l s) l = .ok r ∧
      Redrawn v memory s sprites r := by
  have hle := s.left_le_right
  have hright := s.right_le_width
  obtain ⟨leftDamage, hleft⟩ := fillConst_fills l.pixels 0 s.left (isStale l s) s.border
    (Nat.le_trans hle hright)
  obtain ⟨spriteDamage, hsprites⟩ := fillFrom_fills l.sprites 0 spriteStateLength
    (isStale l s) (.ofList sprites.state)
    (by simp [Run.ofList, sprites.length_state]) (Nat.le_refl _)
  obtain ⟨hsprites, noSprites⟩ := hsprites.whole (spriteBytes sprites) fun i => Bytes.get_ofFn _ i
  unfold renderWindow
  rw [hleft.eq_ok, ok_bind]
  simp only []
  rw [hsprites, ok_bind]
  simp only []
  cases hgraphics : s.graphics with
  | true =>
    obtain ⟨changed, hcells, noChange⟩ := refreshCells_eq v memory (isStale l s)
      { l with sprites := spriteBytes sprites } hgraphics hrow hrc
    simp only [if_true]
    rw [hcells, ok_bind]
    simp only [pure, Except.pure]
    rw [ok_bind]
    generalize hl2 : withCells _ _ = l2 at noChange ⊢
    have hsource : runSource l2 = v.cells memory s.mode := by rw [← hl2]; rfl
    have hbackdrop := v.backdrop_of_graphics memory hgraphics
    rw [← hsource] at hbackdrop
    cases hredraw : changed || Option.isSome spriteDamage || !sprites.isEmpty || isStale l s with
    | true =>
      obtain ⟨window, windowDamage, rightDamage, hwindow, hfinish⟩ :=
        drawWindow_eq s sprites (isStale l s) (cellBackdrop s (runSource l2)) l.pixels
      simp only [Bool.not_true, Bool.false_eq_true, if_false]
      simp only [cellBackdrop] at hwindow hfinish
      rw [hwindow, ok_bind, ok_bind]
      simp only []
      rw [hfinish, ok_bind]
      refine ⟨_, rfl, ?_, ?_, ?_, .inl ?_⟩
      · rw [hbackdrop]
        rfl
      · rw [← hl2]
        rfl
      · intro _
        simp only [runSource]
        exact hsource
      · rw [hbackdrop]
        rfl
    -- Nothing that the window was drawn from has changed, so its pixels are the ones noted.
    | false =>
      simp only [Bool.or_eq_false_iff, Option.isSome_eq_false_iff, Option.isNone_iff_eq_none,
        Bool.not_eq_false'] at hredraw
      obtain ⟨⟨⟨hchanged, hdamage⟩, hempty⟩, hstale⟩ := hredraw
      have same : l2 = l := by rw [noChange hchanged, noSprites hdamage]
      obtain ⟨kept, notes⟩ := hl.showsNotes hstale hgraphics
      obtain ⟨rightDamage, hborder⟩ := fillConst_fills
        (filled l.pixels 0 s.left fun _ => s.border) s.right width (isStale l s) s.border (Nat.le_refl _)
      simp only [Bool.not_false, if_true]
      rw [ok_bind]
      simp only []
      rw [hborder.eq_ok, ok_bind]
      refine ⟨_, rfl, ?_, ?_, ?_, .inr ⟨rfl, hempty⟩⟩
      · rw [hbackdrop, same]
        exact framed_of_window s (window_kept notes (noSprites hdamage).symm)
      · rw [same]
        exact (noSprites hdamage).symm
      · intro _
        simp only [runSource]
        exact hsource
  | false =>
    have hbackdrop := v.backdrop_of_idle memory hgraphics
    obtain ⟨window, windowDamage, rightDamage, hwindow, hfinish⟩ :=
      drawWindow_eq s sprites (isStale l s) (idleBackdrop s memory) l.pixels
    simp only [Bool.false_eq_true, if_false, pure, Except.pure]
    rw [ok_bind]
    simp only [Bool.not_true, Bool.false_eq_true, if_false]
    simp only [idleBackdrop] at hwindow hfinish
    rw [hwindow, ok_bind, ok_bind]
    simp only []
    rw [hfinish, ok_bind]
    refine ⟨_, rfl, ?_, rfl, fun h => absurd h (by simp [hgraphics]), .inl ?_⟩
    · rw [hbackdrop]
      rfl
    · rw [hbackdrop]
      rfl

/-! ## The line -/

theorem latchCollisions_none (v : Vic) (drawn : Option (Nat × Nat)) :
    v.latchCollisions ⟨drawn, 0, 0⟩ = v := by
  unfold latchCollisions
  simp

theorem latchUnseen_eq (v : Vic) (sprites : SpriteRow) :
    v.latchUnseen sprites =
      v.latchCollisions (sprites.overlay (.replicate width 0) 0 0 fun _ => false).1 := by
  unfold latchUnseen
  cases h : sprites.isEmpty with
  | true =>
    rw [if_pos rfl, SpriteRow.overlay_of_isEmpty h]
    exact (v.latchCollisions_none none).symm
  | false => rw [if_neg (by simp)]

/-- The notes that a rendered window leaves are the ones its pixels were made from. -/
theorem coherent_noteSetting {v : Vic} {memory : VideoMemory} {s : LineSetting}
    {sprites : SpriteRow} {r : Rendered} (h : Redrawn v memory s sprites r) :
    Coherent (noteSetting s r) := by
  intro _ hgraphics
  have hgraphics : s.graphics = true := hgraphics
  refine ⟨s, sprites, hgraphics, rfl, rfl, rfl, rfl, h.spriteBytes, ?_⟩
  intro x hx
  have hsource : runSource (noteSetting s r) = v.cells memory s.mode := h.source hgraphics
  show r.line.pixels.get x = _
  rw [h.pixels, framed, Bytes.get_ofFn, if_pos hx, hsource, v.backdrop_of_graphics memory hgraphics]

/-- A chip that has rendered a line: the line is kept, and its sprites have touched. -/
def withLine (v : Vic) (index : Nat) (bitmap : Bytes 0x2000) (l : Line) : Vic :=
  { v with bitmap, cache := ⟨v.cache.lines.setIfInBounds index l⟩ }

theorem graphics_inWindow {v : Vic} {line : Nat} (h : (v.lineSetting line).graphics = true) :
    (v.lineSetting line).inWindow = true := by
  unfold lineSetting at h ⊢
  simp only [Bool.and_eq_true] at h ⊢
  exact h.1

theorem prepared_put (v : Vic) (memory : VideoMemory) (s : LineSetting) (index : Nat) (l : Line) :
    { v.prepared memory s with
      cache := ⟨(v.prepared memory s).cache.lines.setIfInBounds index l⟩ } =
      v.withLine index (v.prepared memory s).bitmap l := by
  unfold prepared fetchBitmap
  split <;> rfl

theorem renderBorder_eq (s : LineSetting) (stale : Bool) (l : Line) :
    ∃ r, renderBorder s stale l = .ok r ∧ r.line.pixels = .replicate width s.border ∧
      r.laid = none := by
  obtain ⟨damage, hfill⟩ := fillConst_fills l.pixels 0 width stale s.border (Nat.le_refl _)
  obtain ⟨hfill, -⟩ := hfill.whole (.replicate width s.border) fun i => Bytes.get_replicate _ i
  unfold renderBorder
  rw [hfill, ok_bind]
  exact ⟨_, rfl, rfl, rfl⟩

/-- Rendering a coherent line leaves the line's picture, whatever the cache held. -/
theorem renderLine_kept {v : Vic} {line index : Nat} {l : Line} (memory : VideoMemory)
    (hindex : v.standard.row? line = some index) (hget : v.cache.lines[index]? = some l)
    (hl : Coherent l) (hrow : v.row < 0x200) (hrc : v.rc < 8) :
    ∃ damage bitmap l', v.renderLine memory line =
        .ok (damage, (v.withLine index bitmap l').latchCollisions (v.touching memory line)) ∧
      l'.pixels = v.picture memory line ∧ Coherent l' ∧ l'.neverRendered = false := by
  unfold renderLine
  simp only [hindex, hget]
  rw [← spritesOn, ← prepared]
  simp only [prepared_put]
  cases hwindow : (v.lineSetting line).inWindow with
  | true =>
    obtain ⟨r, hr, redrawn⟩ := renderWindow_eq v memory (v.lineSetting line)
      (v.spritesOn memory line) hl hrow hrc
    have htouching : v.touching memory line = (laidOver (v.lineSetting line)
        (v.spritesOn memory line) (v.backdrop memory (v.lineSetting line))).1 := by
      simp [touching, hwindow, hindex]
    rw [if_pos rfl, hr, ok_bind]
    refine ⟨r.damage, (v.prepared memory (v.lineSetting line)).bitmap,
      noteSetting (v.lineSetting line) r, ?_, ?_, coherent_noteSetting redrawn, rfl⟩
    · rw [htouching]
      rcases redrawn.laid with hlaid | ⟨hlaid, hempty⟩
      · rw [hlaid]
        rfl
      · rw [hlaid, latchUnseen_eq, SpriteRow.overlay_of_isEmpty hempty,
          laidOver_of_isEmpty hempty]
        rfl
    · show r.line.pixels = _
      rw [redrawn.pixels, picture]
      simp only [hwindow, if_true]
  | false =>
    obtain ⟨r, hr, hpixels, hlaid⟩ :=
      renderBorder_eq (v.lineSetting line) (isStale l (v.lineSetting line)) l
    have htouching : v.touching memory line =
        ((v.spritesOn memory line).overlay (.replicate width 0) 0 0 fun _ => false).1 := by
      simp [touching, hwindow]
    rw [if_neg (by simp), hr, ok_bind]
    refine ⟨r.damage, (v.prepared memory (v.lineSetting line)).bitmap,
      noteSetting (v.lineSetting line) r, ?_, ?_, ?_, rfl⟩
    · rw [hlaid, htouching, latchUnseen_eq]
      rfl
    · show r.line.pixels = _
      rw [hpixels, picture]
      simp only [hwindow, Bool.false_eq_true, if_false]
    · intro _ hgraphics
      rw [graphics_inWindow hgraphics] at hwindow
      exact absurd hwindow (by simp)

/-- A line that is not kept only has its collisions. -/
theorem renderLine_unkept {v : Vic} {line : Nat} (memory : VideoMemory)
    (hindex : v.standard.row? line = none) :
    v.renderLine memory line = .ok (none, v.latchCollisions (v.touching memory line)) := by
  have htouching : v.touching memory line =
      ((v.spritesOn memory line).overlay (.replicate width 0) 0 0 fun _ => false).1 := by
    simp [touching, hindex]
  unfold renderLine
  rw [← spritesOn]
  simp only [hindex]
  rw [htouching, latchUnseen_eq]
  rfl

end C64.Vic
