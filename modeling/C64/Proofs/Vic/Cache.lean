import C64.Proofs.Vic.Rendering
import C64.Vic.Frame

/-!
# The cache never shows

Two chips may keep different lines, for they may have come a different way: one may have rendered
a line under other registers, or have been asked to render every line as a whole. As long as they
agree on what a program can see, they go on agreeing, and every line they render holds the same
pixels (`sights_eq`).
-/

namespace C64.Vic

open Raster

/-! ## The chips that can be reached -/

/-- The chips that power-on leads to. -/
inductive Reachable : Vic → Prop where
  | new (standard : VideoStandard) : Reachable (new standard)
  | reset {v : Vic} : Reachable v → Reachable v.reset
  | invalidate {v : Vic} : Reachable v → Reachable v.invalidate
  | read {v : Vic} (r : UInt8) : Reachable v → Reachable (v.read r).2
  | write {v : Vic} (r b : UInt8) : Reachable v → Reachable (v.write r b)
  | renderLine {v v' : Vic} {memory : VideoMemory} {line : Nat} {damage : Damage} :
    Reachable v → v.renderLine memory line = .ok (damage, v') → Reachable v'
  | endOfLine {v v' : Vic} {memory : VideoMemory} {ended : Bool} :
    Reachable v → v.endOfLine memory = .ok (ended, v') → Reachable v'
  | present {v v' : Vic} {σ : Type} [FrameSink σ] {sink sink' : σ} {status : FrameStatus} :
    Reachable v → v.present sink = .ok (status, v', sink') → Reachable v'

/-- The lines of a cache are as many as the standard shows, and each is coherent. -/
structure SoundCache (standard : VideoStandard) (cache : Cache shape) : Prop where
  size : cache.lines.size = standard.visibleLines
  coherent : ∀ (i : Nat) (l : Line), cache.lines[i]? = some l → Coherent l

/-- What holds of every chip that can be reached. -/
structure Sound (v : Vic) : Prop where
  cache : SoundCache v.standard v.cache
  rasterLine : v.rasterLine < v.standard.linesPerFrame
  row : v.row ≤ v.rasterLine
  rc : v.rc < 8

theorem linesPerFrame_le (s : VideoStandard) : s.linesPerFrame ≤ 312 := by
  cases s <;> decide

theorem Sound.row_lt {v : Vic} (h : Sound v) : v.row < 0x200 := by
  have := linesPerFrame_le v.standard
  have := h.row
  have := h.rasterLine
  omega

theorem SoundCache.map {standard : VideoStandard} {cache : Cache shape} (f : Line → Line)
    (h : SoundCache standard cache) (hf : ∀ l, Coherent l → Coherent (f l)) :
    SoundCache standard ⟨cache.lines.map f⟩ := by
  refine ⟨by rw [Array.size_map]; exact h.size, ?_⟩
  intro i l hget
  rw [Array.getElem?_map, Option.map_eq_some_iff] at hget
  obtain ⟨old, hold, rfl⟩ := hget
  exact hf old (h.coherent i old hold)

theorem SoundCache.set {standard : VideoStandard} {cache : Cache shape} {index : Nat} {l : Line}
    (h : SoundCache standard cache) (hl : Coherent l) :
    SoundCache standard ⟨cache.lines.setIfInBounds index l⟩ := by
  refine ⟨by rw [Array.size_setIfInBounds]; exact h.size, ?_⟩
  intro i l' hget
  rw [Array.getElem?_setIfInBounds] at hget
  split at hget
  · split at hget
    · obtain rfl := Option.some.inj hget
      exact hl
    · exact absurd hget (by simp)
  · exact h.coherent i l' hget

theorem SoundCache.blank (standard : VideoStandard) :
    SoundCache standard (.blank shape standard.visibleLines) := by
  refine ⟨Array.size_ofFn, ?_⟩
  intro i l hget
  unfold Cache.blank at hget
  obtain ⟨_, rfl⟩ := Array.getElem?_eq_some_iff.mp hget
  intro hnever
  simp [CacheLine.blank] at hnever

theorem SoundCache.invalidate {standard : VideoStandard} {cache : Cache shape}
    (h : SoundCache standard cache) : SoundCache standard cache.invalidate :=
  h.map _ fun _ _ hnever => absurd hnever (by simp)

theorem SoundCache.clearDamage {standard : VideoStandard} {cache : Cache shape}
    (h : SoundCache standard cache) : SoundCache standard cache.clearDamage := by
  refine h.map _ fun l hl hnever hdisplayed => ?_
  obtain ⟨s, sprites, notes⟩ := hl hnever hdisplayed
  exact ⟨s, sprites, notes.graphics, notes.mode, notes.xScroll, notes.border, notes.background,
    notes.spriteBytes, notes.window⟩

/-! ### What each step keeps -/

theorem Sound.new (standard : VideoStandard) : Sound (new standard) := by
  refine ⟨.blank standard, ?_, Nat.le_refl 0, Nat.zero_lt_succ 7⟩
  cases standard <;> decide

theorem Sound.reset {v : Vic} (h : Sound v) : Sound v.reset :=
  ⟨h.cache.invalidate, Nat.lt_of_le_of_lt (Nat.zero_le _) h.rasterLine, Nat.le_refl 0,
    Nat.zero_lt_succ 7⟩

theorem Sound.invalidate {v : Vic} (h : Sound v) : Sound v.invalidate :=
  ⟨h.cache.invalidate, h.rasterLine, h.row, h.rc⟩

theorem Sound.read {v : Vic} (h : Sound v) (r : UInt8) : Sound (v.read r).2 := by
  unfold Vic.read
  simp only []
  split <;> exact ⟨h.cache, h.rasterLine, h.row, h.rc⟩

theorem Sound.write {v : Vic} (h : Sound v) (r b : UInt8) : Sound (v.write r b) := by
  unfold Vic.write
  simp only []
  split <;> exact ⟨h.cache, h.rasterLine, h.row, h.rc⟩

theorem Sound.latchCollisions {v : Vic} (h : Sound v) (laid : Overlay) :
    Sound (v.latchCollisions laid) := by
  unfold Vic.latchCollisions
  simp only []
  split <;> split <;> exact ⟨h.cache, h.rasterLine, h.row, h.rc⟩

theorem row?_lt {standard : VideoStandard} {line index : Nat}
    (h : standard.row? line = some index) : index < standard.visibleLines := by
  unfold VideoStandard.row? at h
  split at h
  · obtain rfl := Option.some.inj h
    omega
  · exact absurd h (by simp)

/-- A line that is to be kept has a place in the cache. -/
theorem Sound.place_lt {v : Vic} (h : Sound v) {line index : Nat}
    (hindex : v.standard.row? line = some index) : index < v.cache.lines.size := by
  rw [h.cache.size]
  exact row?_lt hindex

/-- The pixels kept of a raster line, if it is kept. -/
def pixels? (v : Vic) (line : Nat) : Option (Bytes width) :=
  (v.standard.row? line).bind fun index => v.cache.lines[index]?.map (·.pixels)

/-- Exactly the raster lines that are visible have pixels. -/
theorem Sound.isSome_pixels? {v : Vic} (h : Sound v) (line : Nat) :
    (v.pixels? line).isSome = (v.standard.row? line).isSome := by
  unfold pixels?
  cases hindex : v.standard.row? line with
  | none => rfl
  | some index =>
    have hlt := h.place_lt hindex
    simp [hlt]

theorem pixels?_latchCollisions (v : Vic) (laid : Overlay) (line : Nat) :
    (v.latchCollisions laid).pixels? line = v.pixels? line := by
  unfold Vic.latchCollisions
  simp only []
  split <;> split <;> rfl

theorem latchCollisions_eq (v : Vic) (laid : Overlay) :
    ∃ irqStatus spriteCollision backgroundCollision, v.latchCollisions laid =
      { v with irqStatus, spriteCollision, backgroundCollision } := by
  unfold latchCollisions
  simp only []
  split <;> split <;> exact ⟨_, _, _, rfl⟩

theorem latchCollisions_frame (v : Vic) (laid : Overlay) :
    (v.latchCollisions laid).standard = v.standard ∧
      (v.latchCollisions laid).cache = v.cache := by
  obtain ⟨_, _, _, heq⟩ := v.latchCollisions_eq laid
  rw [heq]
  exact ⟨rfl, rfl⟩

theorem beginLine_frame (v : Vic) (memory : VideoMemory) :
    (v.beginLine memory).standard = v.standard ∧ (v.beginLine memory).cache = v.cache := by
  unfold beginLine
  simp only []
  split <;> split <;> exact ⟨rfl, rfl⟩

theorem advanceRow_eq (v : Vic) :
    ∃ displayState row rc, v.advanceRow = { v with displayState, row, rc } := by
  unfold advanceRow
  split
  · exact ⟨_, _, _, rfl⟩
  · split <;> exact ⟨_, _, _, rfl⟩

theorem advanceRow_frame (v : Vic) : v.advanceRow.standard = v.standard ∧
    v.advanceRow.rasterLine = v.rasterLine ∧ v.advanceRow.cache = v.cache := by
  obtain ⟨_, _, _, heq⟩ := v.advanceRow_eq
  rw [heq]
  exact ⟨rfl, rfl, rfl⟩

theorem advanceLine_frame (v : Vic) :
    v.advanceLine.2.standard = v.standard ∧ v.advanceLine.2.cache = v.cache := by
  unfold advanceLine
  simp only []
  by_cases hended : v.standard.linesPerFrame ≤ v.rasterLine + 1
  · simp only [hended, if_true]
    split <;> exact ⟨rfl, rfl⟩
  · simp only [hended, if_false]
    split <;> exact ⟨rfl, rfl⟩

theorem pixels?_advance (v : Vic) (line : Nat) :
    v.advanceRow.advanceLine.2.pixels? line = v.pixels? line := by
  obtain ⟨hstandard, -, hcache⟩ := v.advanceRow_frame
  obtain ⟨hstandard', hcache'⟩ := v.advanceRow.advanceLine_frame
  unfold pixels?
  rw [hstandard', hstandard, hcache', hcache]

/-- Rendering a line does not fail, latches what touches and leaves the picture in the cache. -/
theorem Sound.renderLine {v : Vic} (h : Sound v) (memory : VideoMemory) (line : Nat) :
    ∃ damage bitmap cache,
      v.renderLine memory line =
        .ok (damage, { v with bitmap, cache }.latchCollisions (v.touching memory line)) ∧
      SoundCache v.standard cache ∧
      { v with bitmap, cache }.pixels? line =
        (v.standard.row? line).map fun _ => v.picture memory line := by
  -- A line that is not kept is looked at for collisions only.
  cases hindex : v.standard.row? line with
  | none =>
    refine ⟨none, v.bitmap, v.cache, renderLine_unkept memory hindex, h.cache, ?_⟩
    simp [pixels?, hindex]
  | some index =>
    have hlt := h.place_lt hindex
    have hget : v.cache.lines[index]? = some v.cache.lines[index] := Array.getElem?_eq_getElem hlt
    obtain ⟨damage, bitmap, l, hrender, hpixels, hl, -⟩ :=
      renderLine_kept memory hindex hget (h.cache.coherent index _ hget) h.row_lt h.rc
    refine ⟨damage, bitmap, ⟨v.cache.lines.setIfInBounds index l⟩, hrender, h.cache.set hl, ?_⟩
    simp only [pixels?, hindex, Option.bind_some, Option.map_some]
    rw [Array.getElem?_setIfInBounds_self_of_lt hlt, Option.map_some, hpixels]

theorem Sound.beginLine {v : Vic} (h : Sound v) (memory : VideoMemory) :
    Sound (v.beginLine memory) := by
  unfold Vic.beginLine
  simp only []
  split <;> split
  · exact ⟨h.cache, h.rasterLine, h.row, Nat.zero_lt_succ 7⟩
  · exact ⟨h.cache, h.rasterLine, h.row, h.rc⟩
  · exact ⟨h.cache, h.rasterLine, h.row, Nat.zero_lt_succ 7⟩
  · exact h

/-- The row moves on no faster than the raster line does. -/
theorem Sound.advance {v : Vic} (h : Sound v) : Sound v.advanceRow.advanceLine.2 := by
  have hrow : v.advanceRow.row ≤ v.rasterLine + 1 ∧ v.advanceRow.rc < 8 := by
    have hrow := h.row
    have hrc := h.rc
    unfold advanceRow
    split
    · exact ⟨Nat.le_succ_of_le hrow, hrc⟩
    · split
      · exact ⟨Nat.succ_le_succ hrow, Nat.zero_lt_succ 7⟩
      · exact ⟨Nat.le_succ_of_le hrow, by simp only []; omega⟩
  obtain ⟨hstandard, hline, hcache⟩ := v.advanceRow_frame
  have hsound : SoundCache v.advanceRow.standard v.advanceRow.cache := by
    rw [hstandard, hcache]
    exact h.cache
  -- A frame has lines, so the first line is one of them.
  have hpositive : 0 < v.advanceRow.standard.linesPerFrame := by
    rw [hstandard]
    exact Nat.lt_of_le_of_lt (Nat.zero_le _) h.rasterLine
  unfold advanceLine
  simp only []
  by_cases hended : v.advanceRow.standard.linesPerFrame ≤ v.advanceRow.rasterLine + 1
  · simp only [hended, if_true]
    split <;> exact ⟨hsound, hpositive, Nat.le_refl 0, hrow.2⟩
  · simp only [hended, if_false]
    rw [← hline] at hrow
    split <;> exact ⟨hsound, Nat.lt_of_not_le hended, hrow.1, hrow.2⟩

theorem Sound.rendered {v : Vic} (h : Sound v) {cache : Cache shape}
    (hcache : SoundCache v.standard cache) (bitmap : Bytes 0x2000) (laid : Overlay) :
    Sound ({ v with bitmap, cache }.latchCollisions laid) := by
  have kept : Sound { v with bitmap, cache } := ⟨hcache, h.rasterLine, h.row, h.rc⟩
  exact kept.latchCollisions laid

theorem Sound.endOfLine {v : Vic} (h : Sound v) (memory : VideoMemory) :
    ∃ ended v', v.endOfLine memory = .ok (ended, v') ∧ Sound v' := by
  obtain ⟨damage, bitmap, cache, hrender, hcache, -⟩ :=
    (h.beginLine memory).renderLine memory v.rasterLine
  unfold Vic.endOfLine
  rw [hrender, ok_bind]
  exact ⟨_, _, rfl, ((h.beginLine memory).rendered hcache _ _).advance⟩

theorem Reachable.sound {v : Vic} (h : Reachable v) : Sound v := by
  induction h with
  | new standard => exact .new standard
  | reset _ ih => exact ih.reset
  | invalidate _ ih => exact ih.invalidate
  | read r _ ih => exact ih.read r
  | write r b _ ih => exact ih.write r b
  | @renderLine v v' memory line _ _ hrender ih =>
    obtain ⟨_, bitmap, cache, hok, hcache, -⟩ := ih.renderLine memory line
    rw [hok] at hrender
    obtain ⟨-, rfl⟩ := Prod.mk.inj (Except.ok.inj hrender)
    exact ih.rendered hcache _ _
  | @endOfLine v v' memory _ _ hend ih =>
    obtain ⟨_, v'', hok, hsound⟩ := ih.endOfLine memory
    rw [hok] at hend
    obtain ⟨-, rfl⟩ := Prod.mk.inj (Except.ok.inj hend)
    exact hsound
  | @present v v' σ _ sink sink' status _ hpresent ih =>
    obtain ⟨⟨taken, sink₁⟩, -, hret⟩ := bind_eq_ok.mp hpresent
    obtain ⟨rfl, -⟩ := Prod.mk.inj (Prod.mk.inj (Except.ok.inj hret)).2
    split
    · exact ⟨ih.cache.clearDamage, ih.rasterLine, ih.row, ih.rc⟩
    · exact ih

/-! ## Agreement -/

/-- Two chips agree on what a program can see, and on the cells of a row being displayed. -/
structure Agree (v w : Vic) : Prop where
  standard : v.standard = w.standard
  registers : v.registers = w.registers
  rasterLine : v.rasterLine = w.rasterLine
  rasterCompare : v.rasterCompare = w.rasterCompare
  irqStatus : v.irqStatus = w.irqStatus
  irqEnable : v.irqEnable = w.irqEnable
  denLatch : v.denLatch = w.denLatch
  displayState : v.displayState = w.displayState
  row : v.row = w.row
  rc : v.rc = w.rc
  spriteCollision : v.spriteCollision = w.spriteCollision
  backgroundCollision : v.backgroundCollision = w.backgroundCollision
  matrix : v.displayState = true → ∀ cell < textColumns,
    v.matrix.byteAt (v.cellOffset cell) = w.matrix.byteAt (w.cellOffset cell)
  colour : v.displayState = true → ∀ cell < textColumns,
    v.colour.byteAt (v.cellOffset cell) = w.colour.byteAt (w.cellOffset cell)

/-- The chip with other buffers, another cache and another number of frames behind it. -/
def withBuffers (v : Vic) (other : Vic) : Vic :=
  { v with
    matrix := other.matrix
    colour := other.colour
    bitmap := other.bitmap
    cache := other.cache
    frame := other.frame }

theorem Agree.eq_withBuffers {v w : Vic} (h : Agree v w) : w = v.withBuffers w := by
  obtain ⟨h1, h2, h3, h4, h5, h6, h7, h8, h9, h10, h11, h12, -, -⟩ := h
  cases v
  cases w
  simp only [withBuffers, Vic.mk.injEq] at *
  simp only [h1, h2, h3, h4, h5, h6, h7, h8, h9, h10, h11, h12, and_self]

theorem Agree.invalidate (v : Vic) : Agree v v.invalidate :=
  ⟨rfl, rfl, rfl, rfl, rfl, rfl, rfl, rfl, rfl, rfl, rfl, rfl, fun _ _ _ => rfl, fun _ _ _ => rfl⟩

/-- An operation that does not look at the buffers and fetches no row, and that leaves the row
where it is while it is displayed. -/
structure Spares (f : Vic → Vic) : Prop where
  buffers : ∀ v other, f (withBuffers v other) = (f v).withBuffers (f (withBuffers v other))
  matrix : ∀ v, (f v).matrix = v.matrix
  colour : ∀ v, (f v).colour = v.colour
  row : ∀ v, (f v).displayState = true → v.displayState = true ∧ (f v).row = v.row

theorem Spares.agree {f : Vic → Vic} (hf : Spares f) {v w : Vic} (h : Agree v w) :
    Agree (f v) (f w) := by
  have hw : f w = (f v).withBuffers (f w) := by
    have := hf.buffers v w
    rwa [← h.eq_withBuffers] at this
  have hcells {m m' : Bytes 0x400} (same : v.displayState = true → ∀ cell < textColumns,
      m.byteAt (v.cellOffset cell) = m'.byteAt (w.cellOffset cell)) :
      (f v).displayState = true → ∀ cell < textColumns,
        m.byteAt ((f v).cellOffset cell) = m'.byteAt ((f v).cellOffset cell) := by
    intro hdisplay cell hcell
    obtain ⟨hdisplay, hrow⟩ := hf.row v hdisplay
    have := same hdisplay cell hcell
    unfold cellOffset at this ⊢
    rw [← h.row] at this
    rw [hrow]
    exact this
  have hmatrix := hcells h.matrix
  have hcolour := hcells h.colour
  rw [← hf.matrix v, ← hf.matrix w] at hmatrix
  rw [← hf.colour v, ← hf.colour w] at hcolour
  rw [hw]
  exact ⟨rfl, rfl, rfl, rfl, rfl, rfl, rfl, rfl, rfl, rfl, rfl, rfl, hmatrix, hcolour⟩

theorem spares_read (r : UInt8) : Spares fun v => (v.read r).2 := by
  constructor
  · intro v other
    simp only [Vic.read]
    split <;> rfl
  all_goals
    intro v
    simp only [Vic.read]
    split <;> first | rfl | exact fun h => ⟨h, rfl⟩

theorem spares_write (r b : UInt8) : Spares fun v => v.write r b := by
  constructor
  · intro v other
    simp only [Vic.write]
    split <;> rfl
  all_goals
    intro v
    simp only [Vic.write]
    split <;> first | rfl | exact fun h => ⟨h, rfl⟩

theorem spares_latchCollisions (laid : Overlay) : Spares fun v => v.latchCollisions laid := by
  constructor
  · intro v other
    simp only [Vic.latchCollisions]
    split <;> split <;> rfl
  all_goals
    intro v
    simp only [Vic.latchCollisions]
    split <;> split <;> first | rfl | exact fun h => ⟨h, rfl⟩

theorem spares_advanceRow : Spares advanceRow := by
  constructor
  all_goals
    intro v
    cases hd : v.displayState with
    | false => simp [advanceRow, withBuffers, hd]
    | true => by_cases hrc : v.rc = 7 <;> simp [advanceRow, withBuffers, hd, hrc]

theorem spares_advanceLine : Spares fun v => v.advanceLine.2 := by
  constructor
  all_goals
    intro v
    by_cases hended : v.standard.linesPerFrame ≤ v.rasterLine + 1
    · simp only [advanceLine, withBuffers, hended, if_true]
      by_cases hraster : 0 = v.rasterCompare <;> simp [hraster]
    · simp only [advanceLine, withBuffers, hended, if_false]
      by_cases hraster : v.rasterLine + 1 = v.rasterCompare <;> simp [hraster]

/-! ### Agreement on a line -/

theorem Agree.lineSetting {v w : Vic} (h : Agree v w) (line : Nat) :
    v.lineSetting line = w.lineSetting line := by
  rw [h.eq_withBuffers]
  rfl

theorem Agree.spritesOn {v w : Vic} (h : Agree v w) (memory : VideoMemory) (line : Nat) :
    v.spritesOn memory line = w.spritesOn memory line := by
  rw [h.eq_withBuffers]
  rfl

theorem Agree.cells {v w : Vic} (h : Agree v w) (memory : VideoMemory) (mode : DisplayMode)
    (hdisplay : v.displayState = true) : v.cells memory mode = w.cells memory mode := by
  have hscreen : (Bytes.ofFn fun i : Fin textColumns => v.matrix.byteAt (v.cellOffset i.val)) =
      .ofFn fun i => w.matrix.byteAt (w.cellOffset i.val) := by
    congr 1
    funext i
    exact h.matrix hdisplay i.val i.isLt
  have hcolour : (Bytes.ofFn fun i : Fin textColumns => v.colour.byteAt (v.cellOffset i.val)) =
      .ofFn fun i => w.colour.byteAt (w.cellOffset i.val) := by
    congr 1
    funext i
    exact h.colour hdisplay i.val i.isLt
  unfold Vic.cells
  simp only [hscreen, hcolour]
  rw [h.eq_withBuffers]
  rfl

theorem Agree.backdrop {v w : Vic} (h : Agree v w) (memory : VideoMemory) (line : Nat) :
    v.backdrop memory (v.lineSetting line) = w.backdrop memory (v.lineSetting line) := by
  unfold Vic.backdrop
  split
  · next hgraphics =>
    have hdisplay : v.displayState = true := by
      unfold Vic.lineSetting at hgraphics
      simp only [Bool.and_eq_true] at hgraphics
      exact hgraphics.2
    rw [h.cells memory _ hdisplay]
  · rfl

theorem Agree.picture {v w : Vic} (h : Agree v w) (memory : VideoMemory) (line : Nat) :
    v.picture memory line = w.picture memory line := by
  unfold Vic.picture
  simp only [← h.lineSetting, ← h.spritesOn, ← h.backdrop]

theorem Agree.touching {v w : Vic} (h : Agree v w) (memory : VideoMemory) (line : Nat) :
    v.touching memory line = w.touching memory line := by
  unfold Vic.touching
  simp only [← h.lineSetting, ← h.spritesOn, ← h.backdrop, ← h.standard]

/-- Both chips render a line without failing, to the same pixels. -/
theorem Agree.renderLine {v w : Vic} (h : Agree v w) (hv : Sound v) (hw : Sound w)
    (memory : VideoMemory) (line : Nat) :
    ∃ damage damage' v' w', v.renderLine memory line = .ok (damage, v') ∧
      w.renderLine memory line = .ok (damage', w') ∧ Agree v' w' ∧ Sound v' ∧ Sound w' ∧
      v'.pixels? line = w'.pixels? line := by
  obtain ⟨damage, bitmap, cache, hrender, hcache, hpixels⟩ := hv.renderLine memory line
  obtain ⟨damage', bitmap', cache', hrender', hcache', hpixels'⟩ := hw.renderLine memory line
  -- Agreement says nothing of the cache and the bitmap buffer, which is all that rendering writes.
  have kept : Agree { v with bitmap, cache } { w with bitmap := bitmap', cache := cache' } :=
    ⟨h.standard, h.registers, h.rasterLine, h.rasterCompare, h.irqStatus, h.irqEnable, h.denLatch,
      h.displayState, h.row, h.rc, h.spriteCollision, h.backgroundCollision, h.matrix, h.colour⟩
  refine ⟨damage, damage', _, _, hrender, hrender', ?_, hv.rendered hcache _ _,
    hw.rendered hcache' _ _, ?_⟩
  · rw [← h.touching]
    exact (spares_latchCollisions _).agree kept
  · rw [pixels?_latchCollisions, pixels?_latchCollisions, hpixels, hpixels', h.standard, h.picture]

/-- The display is switched on for the frame. -/
def latchDisplay (v : Vic) : Vic :=
  if v.rasterLine = displayStart ∧ anyBit (v.register 0x11) 0x10 then { v with denLatch := true }
  else v

/-- A character row begins. -/
def beginRow (v : Vic) (memory : VideoMemory) : Vic :=
  { v.fetchRow memory with displayState := true, rc := 0 }

theorem beginLine_eq (v : Vic) (memory : VideoMemory) : v.beginLine memory =
    if v.latchDisplay.isBadline then v.latchDisplay.beginRow memory else v.latchDisplay :=
  rfl

theorem spares_latchDisplay : Spares latchDisplay := by
  constructor
  · intro v other
    unfold latchDisplay
    split
    · next hon =>
      have : v.rasterLine = displayStart ∧ anyBit (v.register 0x11) 0x10 = true := hon
      rw [if_pos this]
      rfl
    · next hoff =>
      have : ¬(v.rasterLine = displayStart ∧ anyBit (v.register 0x11) 0x10 = true) := hoff
      rw [if_neg this]
      rfl
  all_goals
    intro v
    unfold latchDisplay
    split <;> first | rfl | exact fun h => ⟨h, rfl⟩

/-- The cells of a row that begins come from memory. -/
theorem beginRow_cells (v : Vic) (memory : VideoMemory) : ∃ matrix colour,
    v.beginRow memory = { v with matrix, colour, displayState := true, rc := 0 } ∧
    ∀ cell < textColumns,
      matrix.byteAt (v.cellOffset cell) =
        memory.read ((v.screenBase + v.cellOffset cell) % 0x4000) ∧
      colour.byteAt (v.cellOffset cell) = memory.colour (v.cellOffset cell) &&& 0x0F := by
  have hlt (i : Nat) : v.cellOffset i < 0x400 := Nat.mod_lt _ (by decide)
  refine ⟨_, _, rfl, fun cell hcell => ⟨?_, ?_⟩⟩
  · exact byteAt_fold_put v.matrix v.cellOffset
      (fun offset => memory.read ((v.screenBase + offset) % 0x4000)) hlt textColumns cell hcell
  · exact byteAt_fold_put v.colour v.cellOffset (fun offset => memory.colour offset &&& 0x0F) hlt
      textColumns cell hcell

/-- A row that begins is fetched by both, whatever their buffers held. -/
theorem Agree.beginRow {v w : Vic} (h : Agree v w) (memory : VideoMemory) :
    Agree (v.beginRow memory) (w.beginRow memory) := by
  obtain ⟨matrix, colour, hv, hcells⟩ := v.beginRow_cells memory
  obtain ⟨matrix', colour', hw, hcells'⟩ := w.beginRow_cells memory
  have hscreen : v.screenBase = w.screenBase := by
    rw [h.eq_withBuffers]
    rfl
  -- Both fetch the same cells from the same memory; what other cells hold does not count.
  have hoffset (cell : Nat) : v.cellOffset cell = w.cellOffset cell := by
    unfold cellOffset
    rw [h.row]
  have hmatrix : ∀ cell < textColumns,
      matrix.byteAt (v.cellOffset cell) = matrix'.byteAt (w.cellOffset cell) := by
    intro cell hcell
    rw [(hcells cell hcell).1, (hcells' cell hcell).1, hscreen, hoffset]
  have hcolour : ∀ cell < textColumns,
      colour.byteAt (v.cellOffset cell) = colour'.byteAt (w.cellOffset cell) := by
    intro cell hcell
    rw [(hcells cell hcell).2, (hcells' cell hcell).2, hoffset]
  rw [hv, hw]
  exact ⟨h.standard, h.registers, h.rasterLine, h.rasterCompare, h.irqStatus, h.irqEnable,
    h.denLatch, rfl, h.row, rfl, h.spriteCollision, h.backgroundCollision, fun _ => hmatrix,
    fun _ => hcolour⟩

theorem Agree.beginLine {v w : Vic} (h : Agree v w) (memory : VideoMemory) :
    Agree (v.beginLine memory) (w.beginLine memory) := by
  have latched := spares_latchDisplay.agree h
  have hbadline : v.latchDisplay.isBadline = w.latchDisplay.isBadline := by
    rw [latched.eq_withBuffers]
    rfl
  rw [beginLine_eq, beginLine_eq, ← hbadline]
  split
  · exact latched.beginRow memory
  · exact latched

theorem Agree.endOfLine {v w : Vic} (h : Agree v w) (hv : Sound v) (hw : Sound w)
    (memory : VideoMemory) :
    ∃ ended v' w', v.endOfLine memory = .ok (ended, v') ∧ w.endOfLine memory = .ok (ended, w') ∧
      Agree v' w' ∧ Sound v' ∧ Sound w' ∧ v'.pixels? v.rasterLine = w'.pixels? v.rasterLine := by
  obtain ⟨_, _, v', w', hrender, hrender', agree, soundV, soundW, hpixels⟩ :=
    (h.beginLine memory).renderLine (hv.beginLine memory) (hw.beginLine memory) memory v.rasterLine
  have agreeRow := spares_advanceRow.agree agree
  have agreeLine := spares_advanceLine.agree agreeRow
  have hended : v'.advanceRow.advanceLine.1 = w'.advanceRow.advanceLine.1 := by
    simp only [advanceLine, agreeRow.standard, agreeRow.rasterLine]
  refine ⟨v'.advanceRow.advanceLine.1, v'.advanceRow.advanceLine.2, w'.advanceRow.advanceLine.2,
    ?_, ?_, agreeLine, soundV.advance, soundW.advance, ?_⟩
  · unfold Vic.endOfLine
    rw [hrender, ok_bind]
    rfl
  · unfold Vic.endOfLine
    rw [← h.rasterLine, hrender', ok_bind, hended]
    rfl
  · rw [pixels?_advance, pixels?_advance, hpixels]

/-! ## What a program sees -/

/-- What can happen to a chip. -/
inductive Action where
  | read (r : UInt8)
  | write (r b : UInt8)
  /-- The raster line ends, with the given video memory. -/
  | endOfLine (memory : VideoMemory)
  /-- A raster line is rendered out of turn. -/
  | renderLine (memory : VideoMemory) (line : Nat)

/-- What can be seen of a chip behind an action. -/
structure Sight where
  /-- The byte that a read showed. -/
  shown : Option UInt8
  interrupting : Bool
  spriteCollision : UInt8
  backgroundCollision : UInt8
  /-- Whether the line that ended completed a frame. -/
  ended : Option Bool
  /-- The pixels of the line that was rendered, if it is visible. -/
  pixels : Option (Bytes width)

/-- What can be seen of a chip beside what the last action answered. -/
def sight (v : Vic) (shown : Option UInt8) (ended : Option Bool) (pixels : Option (Bytes width)) :
    Sight :=
  ⟨shown, v.interrupting, v.spriteCollision, v.backgroundCollision, ended, pixels⟩

/-- One action. -/
def act (v : Vic) : Action → Except Fault (Sight × Vic)
  | .read r => .ok ((v.read r).2.sight (some (v.read r).1) none none, (v.read r).2)
  | .write r b => .ok ((v.write r b).sight none none none, v.write r b)
  | .endOfLine memory => do
    let (ended, v') ← v.endOfLine memory
    return (v'.sight none (some ended) (v'.pixels? v.rasterLine), v')
  | .renderLine memory line => do
    let (_, v') ← v.renderLine memory line
    return (v'.sight none none (v'.pixels? line), v')

/-- Actions one after another, with what each of them let see. -/
def sights (v : Vic) : List Action → Except Fault (List Sight × Vic)
  | [] => .ok ([], v)
  | a :: rest => do
    let (seen, v) ← v.act a
    let (later, v) ← sights v rest
    return (seen :: later, v)

theorem Agree.sight {v w : Vic} (h : Agree v w) (shown : Option UInt8) (ended : Option Bool)
    (pixels : Option (Bytes width)) : v.sight shown ended pixels = w.sight shown ended pixels := by
  rw [h.eq_withBuffers]
  rfl

theorem Agree.act {v w : Vic} (h : Agree v w) (hv : Sound v) (hw : Sound w) (a : Action) :
    ∃ seen v' w', v.act a = .ok (seen, v') ∧ w.act a = .ok (seen, w') ∧
      Agree v' w' ∧ Sound v' ∧ Sound w' := by
  cases a with
  | read r =>
    have agree := (spares_read r).agree h
    have hshown : (v.read r).1 = (w.read r).1 := by
      rw [h.eq_withBuffers]
      unfold Vic.read
      simp only []
      split <;> rfl
    refine ⟨_, _, _, rfl, ?_, agree, hv.read r, hw.read r⟩
    simp only [Vic.act]
    rw [hshown, agree.sight]
  | write r b =>
    have agree := (spares_write r b).agree h
    refine ⟨_, _, _, rfl, ?_, agree, hv.write r b, hw.write r b⟩
    simp only [Vic.act]
    rw [agree.sight]
  | endOfLine memory =>
    obtain ⟨ended, v', w', hend, hend', agree, soundV, soundW, hpixels⟩ :=
      h.endOfLine hv hw memory
    refine ⟨v'.sight none (some ended) (v'.pixels? v.rasterLine), v', w', ?_, ?_, agree, soundV,
      soundW⟩
    · simp only [Vic.act]
      rw [hend, ok_bind]
      rfl
    · simp only [Vic.act]
      rw [hend', ok_bind, agree.sight, hpixels, h.rasterLine]
      rfl
  | renderLine memory line =>
    obtain ⟨_, _, v', w', hrender, hrender', agree, soundV, soundW, hpixels⟩ :=
      h.renderLine hv hw memory line
    refine ⟨v'.sight none none (v'.pixels? line), v', w', ?_, ?_, agree, soundV, soundW⟩
    · simp only [Vic.act]
      rw [hrender, ok_bind]
      rfl
    · simp only [Vic.act]
      rw [hrender', ok_bind, agree.sight, hpixels]
      rfl

theorem Agree.sights {v w : Vic} (h : Agree v w) (hv : Sound v) (hw : Sound w)
    (actions : List Action) :
    ∃ seen v' w', v.sights actions = .ok (seen, v') ∧ w.sights actions = .ok (seen, w') ∧
      Agree v' w' := by
  induction actions generalizing v w with
  | nil => exact ⟨[], v, w, rfl, rfl, h⟩
  | cons a rest ih =>
    obtain ⟨first, v1, w1, hact, hact', agree, soundV, soundW⟩ := h.act hv hw a
    obtain ⟨later, v2, w2, hlater, hlater', agree'⟩ := ih agree soundV soundW
    refine ⟨first :: later, v2, w2, ?_, ?_, agree'⟩
    · unfold Vic.sights
      rw [hact, ok_bind]
      simp only []
      rw [hlater, ok_bind]
      rfl
    · unfold Vic.sights
      rw [hact', ok_bind]
      simp only []
      rw [hlater', ok_bind]
      rfl

/-- Cached rendering never shows. Chips that agree on what a program can see, whatever their
caches and buffers hold, show the same from then on, and the same pixels of every line they
render; so does a chip that renders every line as a whole. -/
theorem sights_eq {v w : Vic} (hv : Reachable v) (hw : Reachable w) (h : Agree v w)
    (actions : List Action) :
    ∃ seen v' w' whole, v.sights actions = .ok (seen, v') ∧ w.sights actions = .ok (seen, w') ∧
      v.invalidate.sights actions = .ok (seen, whole) ∧ Agree v' w' := by
  obtain ⟨seen, v', w', hrun, hrun', agree⟩ := h.sights hv.sound hw.sound actions
  obtain ⟨seen', v'', whole, hrun'', hwhole, -⟩ :=
    (Agree.invalidate v).sights hv.sound hv.sound.invalidate actions
  rw [hrun] at hrun''
  obtain ⟨rfl, -⟩ := Prod.mk.inj (Except.ok.inj hrun'')
  exact ⟨seen, v', w', whole, hrun, hrun', hwhole, agree⟩

/-- A memory of zeros. -/
def darkMemory : VideoMemory := ⟨fun _ => 0, fun _ => 0⟩

/-- A chip that has rendered its first visible line and one that has not. -/
theorem sights_eq_of_rendered : ∃ damage v, (new .pal).renderLine darkMemory 6 = .ok (damage, v) ∧
    Agree v (new .pal) ∧ ∃ seen v' w' whole,
      v.sights [.write 0x20 5, .renderLine darkMemory 6, .endOfLine darkMemory, .read 0x12] =
        .ok (seen, v') ∧
      (new .pal).sights [.write 0x20 5, .renderLine darkMemory 6, .endOfLine darkMemory,
        .read 0x12] = .ok (seen, w') ∧
      v.invalidate.sights [.write 0x20 5, .renderLine darkMemory 6, .endOfLine darkMemory,
        .read 0x12] = .ok (seen, whole) ∧
      Agree v' w' := by
  obtain ⟨damage, bitmap, cache, hrender, -⟩ :=
    (Sound.new .pal).renderLine darkMemory 6
  have hempty : ((new .pal).spritesOn darkMemory 6).isEmpty = true :=
    SpriteRow.isEmpty_fetch (by decide) _ _ _
  have htouching : (new .pal).touching darkMemory 6 = ⟨none, 0, 0⟩ := by
    unfold touching
    simp only [laidOver_of_isEmpty hempty, SpriteRow.overlay_of_isEmpty hempty]
    split <;> rfl
  rw [htouching, latchCollisions_none] at hrender
  have agree : Agree { new .pal with bitmap, cache } (new .pal) :=
    ⟨rfl, rfl, rfl, rfl, rfl, rfl, rfl, rfl, rfl, rfl, rfl, rfl, fun _ _ _ => rfl, fun _ _ _ => rfl⟩
  exact ⟨damage, _, hrender, agree,
    sights_eq (.renderLine (.new .pal) hrender) (.new .pal) agree _⟩

end C64.Vic
