import C64.Proofs.Vic.Idle
import C64.Proofs.Vic.Still

/-!
# The video matrix

Whatever is written between the lines, a character row takes eight of them from its last badline
on, and the badlines lie on two hundred lines. So the rows that have ended above a raster line leave
room for the one that is displayed (`Within`), which is one of the first twenty-five: no index goes
round, in the chip's buffers or in the video bank, and what lies behind the last cell is neither
fetched nor shown (`Reachable.never_overruns`).
-/

namespace C64

/-- A buffer is blank from an index on, as at power-on. -/
def Bytes.BlankFrom {n : Nat} (m : Bytes n) (start : Nat) : Prop :=
  ∀ place, start ≤ place → m.byteAt place = 0

theorem Bytes.blankFrom_replicate (n start : Nat) : (Bytes.replicate n 0).BlankFrom start := by
  intro place _
  unfold Bytes.byteAt
  split
  · exact Bytes.get_replicate _ _
  · rfl

namespace Vic

open Raster

variable {v v' : Vic} {memory : VideoMemory} {line : Nat} {ended : Bool} {damage : Damage}

/-! ## Fetching into a buffer -/

/-- A fetch leaves the other places of the buffer alone. -/
theorem byteAt_fold_put_of_ne {n : Nat} (m : Bytes n) (place : Nat → Nat) (read : Nat → UInt8)
    (inside : ∀ i, place i < n) (k : Nat) {other : Nat} (apart : ∀ i < k, place i ≠ other) :
    (Nat.fold k (fun cell _ m => m.put (place cell) (read (place cell))) m).byteAt other =
      m.byteAt other := by
  induction k with
  | zero => rfl
  | succ k ih =>
    rw [Nat.fold_succ, Bytes.byteAt_put _ (inside k), if_neg (apart k (Nat.lt_succ_self k))]
    exact ih fun i before => apart i (Nat.lt_succ_of_lt before)

theorem cellOffset_lt (v : Vic) (cell : Nat) : v.cellOffset cell < 0x400 :=
  Nat.mod_lt _ (by decide)

/-- The cells of one of the first twenty-five rows do not go round in the matrix. -/
theorem cellOffset_eq (row : v.row ≤ 24) {cell : Nat} (h : cell < textColumns) :
    v.cellOffset cell = v.row * textColumns + cell := by
  unfold cellOffset
  unfold textColumns at *
  exact Nat.mod_eq_of_lt (by omega)

theorem bitmapIndex_eq (row : v.row ≤ 24) (rc : v.rc ≤ 7) {cell : Nat} (h : cell < textColumns) :
    v.bitmapIndexing.index cell = (v.row * textColumns + cell) * 8 + v.rc := by
  unfold Indexing.index bitmapIndexing
  unfold textColumns at *
  simp only []
  rw [show (0x1FFF : Nat) = 2 ^ 13 - 1 from rfl, Nat.and_two_pow_sub_one_eq_mod,
    Nat.mod_eq_of_lt (by omega)]
  omega

/-- A buffer with the cells of a row fetched. -/
theorem byteAt_fetchCells (row : v.row ≤ 24) (m : Bytes 0x400) (read : Nat → UInt8) (place : Nat) :
    (Nat.fold textColumns
      (fun cell _ m => m.put (v.cellOffset cell) (read (v.cellOffset cell))) m).byteAt place =
    if v.row * textColumns ≤ place ∧ place < v.row * textColumns + textColumns then read place
    else m.byteAt place := by
  split
  · next cell =>
    have there : v.cellOffset (place - v.row * textColumns) = place := by
      rw [cellOffset_eq row (by omega)]
      omega
    have fetched := byteAt_fold_put m v.cellOffset read v.cellOffset_lt textColumns
      (place - v.row * textColumns) (by omega)
    rwa [there] at fetched
  · next elsewhere =>
    refine byteAt_fold_put_of_ne m v.cellOffset read v.cellOffset_lt textColumns fun i hi => ?_
    rw [cellOffset_eq row hi]
    omega

/-- The screen codes of a row that begins. -/
theorem byteAt_beginRow_matrix (row : v.row ≤ 24) (memory : VideoMemory) (place : Nat) :
    (v.beginRow memory).matrix.byteAt place =
      if v.row * textColumns ≤ place ∧ place < v.row * textColumns + textColumns then
        memory.read (v.screenBase + place)
      else v.matrix.byteAt place := by
  refine (byteAt_fetchCells row v.matrix
    (fun offset => memory.read ((v.screenBase + offset) % 0x4000)) place).trans ?_
  split
  · next own =>
    unfold textColumns at own
    rw [v.matrix_in_bank (by omega)]
  · rfl

/-- The colours of a row that begins. -/
theorem byteAt_beginRow_colour (row : v.row ≤ 24) (memory : VideoMemory) (place : Nat) :
    (v.beginRow memory).colour.byteAt place =
      if v.row * textColumns ≤ place ∧ place < v.row * textColumns + textColumns then
        memory.colour place &&& 0x0F
      else v.colour.byteAt place :=
  byteAt_fetchCells row v.colour (fun offset => memory.colour offset &&& 0x0F) place

/-! ## What bounds the rows -/

/-- The rows that have ended lie above the current line, each on eight lines of its own, and the row
that is displayed has begun on a line of the display area. What lies behind the last cell is as at
power-on. -/
structure Within (v : Vic) : Prop where
  row : v.row ≤ 25
  above : 8 * v.row ≤ v.rasterLine - displayStart
  displays : v.displayState = true →
    displayStart + 8 * v.row + v.rc ≤ v.rasterLine ∧ v.rasterLine < displayStop + v.rc
  matrix : v.matrix.BlankFrom 1000
  colour : v.colour.BlankFrom 1000
  bitmap : v.bitmap.BlankFrom 8000

/-- A row that is displayed is one of twenty-five. -/
theorem Within.row_displayed (h : Within v) (displays : v.displayState = true) : v.row ≤ 24 := by
  obtain ⟨begun, fetched⟩ := h.displays displays
  unfold displayStart at begun
  unfold displayStop at fetched
  omega

/-- So is a row that begins. -/
theorem Within.row_begins (h : Within v) (bad : v.isBadline = true) : v.row ≤ 24 := by
  have above := h.above
  simp only [isBadline, Bool.and_eq_true, decide_eq_true_eq] at bad
  unfold displayStart displayStop at *
  omega

/-! ### What each step keeps -/

theorem Within.new (standard : VideoStandard) : Within (new standard) where
  row := Nat.zero_le 25
  above := Nat.zero_le _
  displays := nofun
  matrix := Bytes.blankFrom_replicate _ _
  colour := Bytes.blankFrom_replicate _ _
  bitmap := Bytes.blankFrom_replicate _ _

theorem Within.reset (h : Within v) : Within v.reset :=
  ⟨Nat.zero_le 25, Nat.zero_le _, nofun, h.matrix, h.colour, h.bitmap⟩

theorem Within.write (h : Within v) (r b : UInt8) : Within (v.write r b) := by
  unfold Vic.write
  simp only []
  split <;> exact ⟨h.row, h.above, h.displays, h.matrix, h.colour, h.bitmap⟩

/-- What is kept, latched and interrupted does not count. -/
theorem Within.unseen (h : Within v) (cache : Cache shape)
    (irqStatus spriteCollision backgroundCollision : UInt8) :
    Within { v with cache, irqStatus, spriteCollision, backgroundCollision } :=
  ⟨h.row, h.above, h.displays, h.matrix, h.colour, h.bitmap⟩

theorem Within.latchDisplay (h : Within v) : Within v.latchDisplay := by
  unfold Vic.latchDisplay
  split
  · exact ⟨h.row, h.above, h.displays, h.matrix, h.colour, h.bitmap⟩
  · exact h

/-- A row that begins over starts on a line further down, so there is room for it as before. -/
theorem Within.beginRow (h : Within v) (bad : v.isBadline = true) (memory : VideoMemory) :
    Within (v.beginRow memory) := by
  have row := h.row_begins bad
  have outside {place : Nat} (behind : 1000 ≤ place) :
      ¬(v.row * textColumns ≤ place ∧ place < v.row * textColumns + textColumns) := by
    unfold textColumns
    omega
  have matrix : (v.beginRow memory).matrix.BlankFrom 1000 := by
    intro place behind
    rw [byteAt_beginRow_matrix row, if_neg (outside behind)]
    exact h.matrix place behind
  have colour : (v.beginRow memory).colour.BlankFrom 1000 := by
    intro place behind
    rw [byteAt_beginRow_colour row, if_neg (outside behind)]
    exact h.colour place behind
  have displays : displayStart + 8 * v.row + 0 ≤ v.rasterLine ∧
      v.rasterLine < displayStop + 0 := by
    have above := h.above
    simp only [isBadline, Bool.and_eq_true, decide_eq_true_eq] at bad
    omega
  obtain ⟨_, _, begun, -⟩ := v.beginRow_cells memory
  rw [begun] at matrix colour ⊢
  exact ⟨h.row, h.above, fun _ => displays, matrix, colour, h.bitmap⟩

theorem Within.beginLine (h : Within v) (memory : VideoMemory) : Within (v.beginLine memory) := by
  rw [beginLine_eq]
  split
  · next bad => exact h.latchDisplay.beginRow bad memory
  · exact h.latchDisplay

/-- The bytes of the bitmap are fetched on the pixel rows that are displayed. -/
theorem Within.fetchBitmap (h : Within v) (rc : v.rc ≤ 7) (displays : v.displayState = true)
    (memory : VideoMemory) : Within (v.fetchBitmap memory) := by
  have row := h.row_displayed displays
  refine ⟨h.row, h.above, h.displays, h.matrix, h.colour, fun place behind => ?_⟩
  refine (byteAt_fold_put_of_ne v.bitmap v.bitmapIndexing.index
    (fun offset => memory.read (v.bitmapBase + offset)) v.bitmapIndexing_index_lt textColumns
    fun cell hcell => ?_).trans (h.bitmap place behind)
  rw [bitmapIndex_eq row rc hcell]
  unfold textColumns at *
  omega

theorem Within.prepared (h : Within v) (rc : v.rc ≤ 7) (memory : VideoMemory) (line : Nat) :
    Within (v.prepared memory (v.lineSetting line)) := by
  unfold Vic.prepared
  split
  · next fetches =>
    have graphics : (v.lineSetting line).graphics = true := (Bool.and_eq_true _ _ ▸ fetches).1
    unfold lineSetting at graphics
    simp only [Bool.and_eq_true] at graphics
    exact h.fetchBitmap rc graphics.2 memory
  · exact h

/-- Behind a line that was rendered the collisions are latched. -/
theorem latched_eq (w : Vic) (laid : Option Overlay) (sprites : SpriteRow) :
    ∃ irqStatus spriteCollision backgroundCollision,
      (match laid with
        | some laid => w.latchCollisions laid
        | none => w.latchUnseen sprites) =
      { w with irqStatus, spriteCollision, backgroundCollision } := by
  cases laid with
  | some laid => exact w.latchCollisions_eq laid
  | none =>
    rw [latchUnseen_eq]
    exact w.latchCollisions_eq _

/-- Rendering a line fetches bytes of the bitmap at most. -/
theorem renderLine_eq (run : v.renderLine memory line = .ok (damage, v')) :
    ∃ bitmap, (bitmap = v.bitmap ∨ bitmap = (v.prepared memory (v.lineSetting line)).bitmap) ∧
      ∃ cache irqStatus spriteCollision backgroundCollision,
        v' = { v with bitmap, cache, irqStatus, spriteCollision, backgroundCollision } := by
  unfold Vic.renderLine at run
  cases visible : v.standard.row? line with
  | none =>
    simp only [visible] at run
    cases run
    obtain ⟨_, _, _, same⟩ := v.latched_eq none _
    exact ⟨v.bitmap, .inl rfl, v.cache, _, _, _, same⟩
  | some index =>
    cases kept : v.cache.lines[index]? with
    | none =>
      simp only [*] at run
      cases run
      exact ⟨v.bitmap, .inl rfl, v.cache, v.irqStatus, v.spriteCollision,
        v.backgroundCollision, rfl⟩
    | some l =>
      simp only [*] at run
      rw [← prepared] at run
      simp only [prepared_put] at run
      refine ⟨_, .inr rfl, ?_⟩
      split at run
      all_goals
        obtain ⟨r, -, run⟩ := bind_eq_ok.mp run
        cases run
        obtain ⟨_, _, _, same⟩ :=
          (v.withLine index _ (noteSetting (v.lineSetting line) r)).latched_eq r.laid
            (SpriteRow.fetch v.registers line v.screenBase memory)
        exact ⟨_, _, _, _, same⟩

theorem Within.renderLine (h : Within v) (rc : v.rc ≤ 7)
    (run : v.renderLine memory line = .ok (damage, v')) : Within v' := by
  obtain ⟨bitmap, fetched, cache, irqStatus, spriteCollision, backgroundCollision, rfl⟩ :=
    renderLine_eq run
  have blank : bitmap.BlankFrom 8000 := by
    obtain rfl | rfl := fetched
    · exact h.bitmap
    · exact (h.prepared rc memory line).bitmap
  exact ⟨h.row, h.above, h.displays, h.matrix, h.colour, blank⟩

/-- The eighth line of a row ends it: below, the row counts among those above. -/
theorem Within.advanceRow (h : Within v) : v.advanceRow.row ≤ 25 ∧
    8 * v.advanceRow.row ≤ v.rasterLine + 1 - displayStart ∧
    (v.advanceRow.displayState = true →
      displayStart + 8 * v.advanceRow.row + v.advanceRow.rc ≤ v.rasterLine + 1 ∧
        v.rasterLine + 1 < displayStop + v.advanceRow.rc) := by
  have row := h.row
  have above := h.above
  unfold Vic.advanceRow
  cases state : v.displayState with
  | false =>
    simp only [Bool.not_false, if_true, state]
    exact ⟨row, by omega, nofun⟩
  | true =>
    have most := h.row_displayed state
    obtain ⟨begun, fetched⟩ := h.displays state
    simp only [Bool.not_true, Bool.false_eq_true, if_false]
    split
    · exact ⟨by simp only []; omega, by simp only []; omega, nofun⟩
    · exact ⟨row, by simp only []; omega, fun _ => by simp only []; omega⟩

theorem Within.advance (h : Within v) : Within v.advanceRow.advanceLine.2 := by
  obtain ⟨row, above, displays⟩ := h.advanceRow
  obtain ⟨-, place, -⟩ := v.advanceRow_frame
  obtain ⟨_, _, _, moved⟩ := v.advanceRow_eq
  have matrix : v.advanceRow.matrix.BlankFrom 1000 := by rw [moved]; exact h.matrix
  have colour : v.advanceRow.colour.BlankFrom 1000 := by rw [moved]; exact h.colour
  have bitmap : v.advanceRow.bitmap.BlankFrom 8000 := by rw [moved]; exact h.bitmap
  rw [← place] at above displays
  unfold Vic.advanceLine
  by_cases last : v.advanceRow.standard.linesPerFrame ≤ v.advanceRow.rasterLine + 1
  · simp only [last, if_true]
    split <;> exact ⟨Nat.zero_le 25, Nat.zero_le _, nofun, matrix, colour, bitmap⟩
  · simp only [last, if_false]
    split <;> exact ⟨row, above, displays, matrix, colour, bitmap⟩

theorem Within.endOfLine (h : Within v) (sound : Sound v)
    (run : v.endOfLine memory = .ok (ended, v')) : Within v' := by
  have begun := h.beginLine memory
  have rc := Nat.le_of_lt_succ (sound.beginLine memory).rc
  obtain ⟨⟨_, rendered⟩, shown, hret⟩ := bind_eq_ok.mp run
  obtain rfl : rendered.advanceRow.advanceLine.2 = v' := congrArg Prod.snd (Except.ok.inj hret)
  exact (begun.renderLine rc shown).advance

/-- However the chip got where it is. -/
theorem Reachable.within (h : Reachable v) : Within v := by
  induction h with
  | new standard => exact .new standard
  | reset _ ih => exact ih.reset
  | @invalidate v _ ih =>
    exact ih.unseen _ v.irqStatus v.spriteCollision v.backgroundCollision
  | @read v r _ ih =>
    obtain ⟨_, _, same⟩ := v.read_eq r
    rw [same]
    exact ih.unseen v.cache v.irqStatus _ _
  | write r b _ ih => exact ih.write r b
  | renderLine before run ih => exact ih.renderLine (Nat.le_of_lt_succ before.sound.rc) run
  | endOfLine before run ih => exact ih.endOfLine before.sound run
  | @present v _ _ _ _ _ _ _ run ih =>
    rw [present_eq run]
    exact ih.unseen _ v.irqStatus v.spriteCollision v.backgroundCollision

/-! ## What is fetched and shown -/

/-- The screen codes and colours of a row that begins are those of its own forty places in the
memory. They lie in the video bank, and no sprite pointer, of whatever screen, is among them. The
other places of the chip's buffers are left alone. -/
structure RowFetched (v : Vic) (memory : VideoMemory) : Prop where
  row : v.row ≤ 24
  matrix : ∀ place, (v.beginLine memory).matrix.byteAt place =
    if v.row * 40 ≤ place ∧ place < v.row * 40 + 40 then memory.read (v.screenBase + place)
    else v.matrix.byteAt place
  colour : ∀ place, (v.beginLine memory).colour.byteAt place =
    if v.row * 40 ≤ place ∧ place < v.row * 40 + 40 then memory.colour place &&& 0x0F
    else v.colour.byteAt place
  bank : ∀ cell < 40, v.row * 40 + cell < 1000 ∧ v.screenBase + (v.row * 40 + cell) < 0x4000
  pointers : ∀ cell < 40, ∀ (w : Vic), ∀ i < 8,
    (w.screenBase + 0x03F8 + i) % 0x4000 ≠ v.screenBase + (v.row * 40 + cell)

/-- The cells that are displayed are forty of the first thousand, in order, and their bytes of the
bitmap are eight apart among the first eight thousand. -/
structure RowShown (v : Vic) (memory : VideoMemory) : Prop where
  row : v.row ≤ 24
  offset : ∀ cell < 40, v.cellOffset cell = v.row * 40 + cell ∧ v.row * 40 + cell < 1000
  index : ∀ cell < 40, v.bitmapIndexing.index cell = (v.row * 40 + cell) * 8 + v.rc ∧
    (v.row * 40 + cell) * 8 + v.rc < 8000
  cells : ∀ mode, ∀ cell < 40,
    (v.cells memory mode).screen.byteAt cell = v.matrix.byteAt (v.row * 40 + cell) ∧
    (v.cells memory mode).colour.byteAt cell = v.colour.byteAt (v.row * 40 + cell)
  pattern : ∀ mode : DisplayMode, mode.isBitmap = true → ∀ cell < 40,
    (v.cells memory mode).pattern.byteAt cell =
      memory.read (v.bitmapBase + ((v.row * 40 + cell) * 8 + v.rc))

theorem screenBase_le (v : Vic) : v.screenBase ≤ 0x3C00 := by
  have last := v.matrix_in_bank (show 0x3FF < 0x400 by decide)
  have inside : (v.screenBase + 0x3FF) % 0x4000 < 0x4000 := Nat.mod_lt _ (by decide)
  omega

/-- A screen has a sprite's pointer behind its last cell, and the screens do not overlap. -/
theorem pointer_ne (v w : Vic) {place i : Nat} (cell : place < 1000) (hi : i < 8) :
    (w.screenBase + 0x03F8 + i) % 0x4000 ≠ v.screenBase + place := by
  unfold screenBase
  omega

theorem latchDisplay_eq (v : Vic) : ∃ denLatch, v.latchDisplay = { v with denLatch } := by
  unfold latchDisplay
  split <;> exact ⟨_, rfl⟩

theorem Within.rowFetched (h : Within v) (bad : v.latchDisplay.isBadline = true)
    (memory : VideoMemory) : RowFetched v memory := by
  obtain ⟨_, latched⟩ := v.latchDisplay_eq
  have row : v.row ≤ 24 := by
    have begins := h.latchDisplay.row_begins bad
    rwa [latched] at begins
  have begun : v.beginLine memory = v.latchDisplay.beginRow memory := by
    rw [beginLine_eq, if_pos bad]
  rw [latched] at begun
  refine ⟨row, fun place => ?_, fun place => ?_, fun cell hcell => ?_, fun cell hcell w i hi => ?_⟩
  · rw [begun]
    exact byteAt_beginRow_matrix row memory place
  · rw [begun]
    exact byteAt_beginRow_colour row memory place
  · have := v.screenBase_le
    omega
  · exact pointer_ne v w (by omega) hi

theorem Within.rowShown (h : Within v) (rc : v.rc ≤ 7) (displays : v.displayState = true)
    (memory : VideoMemory) : RowShown v memory := by
  have row := h.row_displayed displays
  refine ⟨row, fun cell hcell => ⟨cellOffset_eq row hcell, by omega⟩,
    fun cell hcell => ⟨bitmapIndex_eq row rc hcell, by omega⟩, fun mode cell hcell => ?_,
    fun mode bitmap cell hcell => ?_⟩
  · have column : cell < textColumns := hcell
    unfold Vic.cells
    simp only []
    rw [Bytes.byteAt_of_lt _ column, Bytes.byteAt_of_lt _ column, Bytes.get_ofFn, Bytes.get_ofFn,
      cellOffset_eq row column]
    exact ⟨rfl, rfl⟩
  · have column : cell < textColumns := hcell
    unfold Vic.cells
    simp only [bitmap, if_true]
    rw [Bytes.byteAt_of_lt _ column, Bytes.get_ofFn, bitmapIndex_eq row rc column]
    rfl

/-- The buffers of a row stay as they were when it was rendered. -/
theorem Sound.endOfLine_buffers (h : Sound v) (run : v.endOfLine memory = .ok (ended, v')) :
    v'.matrix = (v.beginLine memory).matrix ∧ v'.colour = (v.beginLine memory).colour := by
  obtain ⟨_, _, _, _, _, -, rfl⟩ := h.endOfLine_eq run
  exact ⟨(spares_advanceLine.matrix _).trans (spares_advanceRow.matrix _),
    (spares_advanceLine.colour _).trans (spares_advanceRow.colour _)⟩

/-- The video matrix is never overrun. Whatever was written, and whenever, the raster line is one of
the frame, the row one of twenty-five or behind them, and a row that is displayed is one of them.
A row is fetched and shown from its own places in the matrix and in the bitmap, nothing behind the
last of them was ever fetched, and the line can be closed. -/
theorem Reachable.never_overruns (h : Reachable v) (memory : VideoMemory) :
    (v.rasterLine < v.standard.linesPerFrame ∧ v.rc ≤ 7 ∧ v.row ≤ 25 ∧
      (v.displayState = true → v.row ≤ 24)) ∧
    (v.latchDisplay.isBadline = true → RowFetched v memory) ∧
    (v.latchDisplay.isBadline = false →
      (v.beginLine memory).matrix = v.matrix ∧ (v.beginLine memory).colour = v.colour) ∧
    (∀ w, w = v ∨ w = v.beginLine memory → w.displayState = true → RowShown w memory) ∧
    (v.matrix.BlankFrom 1000 ∧ v.colour.BlankFrom 1000 ∧ v.bitmap.BlankFrom 8000) ∧
    ∃ ended v', v.endOfLine memory = .ok (ended, v') ∧
      v'.matrix = (v.beginLine memory).matrix ∧ v'.colour = (v.beginLine memory).colour := by
  have sound := h.sound
  have within := h.within
  have rc := Nat.le_of_lt_succ sound.rc
  refine ⟨⟨sound.rasterLine, rc, within.row, within.row_displayed⟩,
    fun bad => within.rowFetched bad memory, fun good => ?_, ?_,
    ⟨within.matrix, within.colour, within.bitmap⟩, ?_⟩
  · obtain ⟨_, latched⟩ := v.latchDisplay_eq
    rw [beginLine_eq, good, if_neg Bool.false_ne_true, latched]
    exact ⟨rfl, rfl⟩
  · rintro w (rfl | rfl) displays
    · exact within.rowShown rc displays memory
    · exact (within.beginLine memory).rowShown
        (Nat.le_of_lt_succ (sound.beginLine memory).rc) displays memory
  · obtain ⟨ended, v', run, -⟩ := sound.endOfLine memory
    exact ⟨ended, v', run, sound.endOfLine_buffers run⟩

/-- Lines that pass with the display on lead through the rows. -/
theorem Reachable.reaches_afterLines (h : Reachable v) (start : v.rasterLine = 0)
    (on : anyBit (v.register 0x11) 0x10 = true) (memory : VideoMemory) (n : Nat)
    (within : n < v.standard.linesPerFrame) : Reaches v memory n (v.afterLines memory n) := by
  induction n with
  | zero => exact h.reaches start memory
  | succ n ih =>
    obtain ⟨sound, ended, run⟩ := h.sound.afterLines memory n
    exact ((ih (Nat.lt_of_succ_lt within)).endOfLine sound on run).2 within

/-- A screen full of ones, and all sprite pointers two. -/
def pointedMemory : VideoMemory := ⟨fun a => if a % 0x400 < 1000 then 1 else 2, fun _ => 1⟩

/-- On its last badline a screen of text fetches the twenty-fifth row up to the last cell, and no
sprite pointer. -/
theorem never_overruns_lastRow :
    let v := ((new .pal).write 0x11 0x1B).afterLines pointedMemory 0xF3
    v.row = 24 ∧ v.latchDisplay.isBadline = true ∧
      (v.beginLine pointedMemory).matrix.byteAt 999 = 1 ∧
      (v.beginLine pointedMemory).matrix.byteAt 0x3F8 = 0 := by
  intro v
  have first : Reachable ((new .pal).write 0x11 0x1B) := .write _ _ (.new .pal)
  have reach : Reachable v := (first.sound.passes pointedMemory 0xF3).reachable first
  have reaches := first.reaches_afterLines rfl (by decide) pointedMemory 0xF3 (by decide)
  have row : v.row = 24 := reaches.row
  have bad : v.latchDisplay.isBadline = true := (reaches.latchDisplay (by decide)).isBadline
  obtain ⟨-, fetches, -, -, blank, -⟩ := reach.never_overruns pointedMemory
  have fetched := fetches bad
  refine ⟨row, bad, ?_, ?_⟩
  · rw [fetched.matrix, row, if_pos (by decide)]
    have cell : (v.screenBase + 999) % 0x400 < 1000 := by
      unfold screenBase
      omega
    unfold pointedMemory
    simp only [cell, if_true]
  · rw [fetched.matrix, row, if_neg (by decide)]
    exact blank.1 0x3F8 (by decide)

end Vic

end C64
