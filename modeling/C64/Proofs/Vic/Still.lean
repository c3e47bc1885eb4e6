import C64.Proofs.Vic.Rows

/-!
# The picture of a frame in which nothing changes

With the display on, no sprites, and nothing written while a frame passes, what a place of the
frame shows can be said without any of the chip's counters (`still`): a character row is a place
in the screen matrix, a pixel row a place in a pattern, and scrolling moves both. A frame that
starts at its first line leaves exactly that picture in the cache (`still_frame`).
-/

namespace C64.Vic

open Raster

/-! ## What is to be seen -/

/-- How far to the right the cells are moved. -/
def xScroll (v : Vic) : Nat := (v.register 0x16 &&& 0x07).toNat

def backgrounds (v : Vic) : Backgrounds := .ofFn fun i => v.register (0x21 + i.val) &&& 0x0F

/-- Whether a raster line lies in the display window, of twenty-five rows or twenty-four. -/
def windowLine (v : Vic) (line : Nat) : Bool :=
  if anyBit (v.register 0x11) 0x08 then 0x33 ≤ line && line < 0xFB else 0x37 ≤ line && line < 0xF7

/-- Whether a column lies in the display window, of forty columns or thirty-eight. -/
def windowColumn (v : Vic) (x : Nat) : Bool :=
  if anyBit (v.register 0x16) 0x08 then 48 ≤ x && x < 368 else 55 ≤ x && x < 359

/-- Pixel `i` on pixel row `k` of the cell at a place of the screen matrix. -/
def matrixPixel (v : Vic) (memory : VideoMemory) (place k i : Nat) : UInt8 :=
  let screen := memory.read (v.screenBase + place)
  let code := (screen &&& v.mode.codeMask).toNat
  let pattern := memory.read
    (if v.mode.isBitmap then v.bitmapBase + (8 * place + k) else v.charBase + 8 * code + k)
  cellPixel v.mode pattern screen (memory.colour place &&& 0x0F) v.backgrounds i

/-- What a place of the frame shows. -/
def still (v : Vic) (memory : VideoMemory) (line x : Nat) : UInt8 :=
  if v.windowLine line && v.windowColumn x then
    if v.inRows line then
      let r := (line - v.rowStart) / 8
      let k := (line - v.rowStart) % 8
      if x < 48 + v.xScroll then
        if v.mode = .invalid then 0 else v.register 0x21 &&& 0x0F
      else
        let c := (x - 48 - v.xScroll) / 8
        v.matrixPixel memory (40 * r + c) k ((x - 48 - v.xScroll) % 8)
    else cellPixel v.mode (memory.read v.mode.idleAddress) 0 0 v.backgrounds ((x - 48) % 8)
  else v.register 0x20 &&& 0x0F

/-- A whole line of it. -/
def stillLine (v : Vic) (memory : VideoMemory) (line : Nat) : Bytes width :=
  .ofFn fun x => v.still memory line x.val

/-! ## The window -/

/-- How a line is shown when the display is on. -/
def stillSetting (v : Vic) (line : Nat) : LineSetting where
  mode := v.mode
  xScroll := v.register 0x16 &&& 0x07
  border := v.register 0x20 &&& 0x0F
  background := v.backgrounds
  inWindow := v.windowLine line
  wide := anyBit (v.register 0x16) 0x08
  graphics := v.windowLine line && v.inRows line

theorem windowColumn_iff (v : Vic) (line x : Nat) : v.windowColumn x = true ↔
    (v.stillSetting line).left ≤ x ∧ x < (v.stillSetting line).right := by
  unfold windowColumn LineSetting.left LineSetting.right stillSetting
  simp only []
  split <;> simp [border, runLength, textColumns]

theorem windowColumn_bounds {v : Vic} {x : Nat} (h : v.windowColumn x = true) :
    border ≤ x ∧ x < border + runLength := by
  unfold windowColumn at h
  unfold border runLength textColumns
  split at h <;> simp only [Bool.and_eq_true, decide_eq_true_eq] at h <;> omega

theorem windowLine_bounds {v : Vic} {line : Nat} (h : v.windowLine line = true) :
    0x33 ≤ line ∧ line < 0xFB := by
  unfold windowLine at h
  split at h <;> simp only [Bool.and_eq_true, decide_eq_true_eq] at h <;> omega

/-- The window lies where lines are kept. -/
theorem isSome_row? {v : Vic} {line : Nat} (h : v.windowLine line = true) :
    (v.standard.row? line).isSome = true := by
  have within := windowLine_bounds h
  have kept : v.standard.firstVisibleLine ≤ line ∧
      line < v.standard.firstVisibleLine + v.standard.visibleLines := by
    cases v.standard <;> simp only [VideoStandard.firstVisibleLine, VideoStandard.visibleLines] <;>
      omega
  unfold VideoStandard.row?
  rw [if_pos kept]
  rfl

variable {v₀ v v' : Vic} {memory : VideoMemory} {line : Nat}

theorem Sequenced.lineSetting (h : Shows v₀ memory line v) :
    v.lineSetting line = v₀.stillSetting line := by
  -- The window begins below the line on which the display is latched.
  have latched : (decide (displayStart ≤ line) && v₀.windowLine line) = v₀.windowLine line := by
    cases within : v₀.windowLine line with
    | false => rw [Bool.and_false]
    | true =>
      rw [Bool.and_true, decide_eq_true_eq]
      exact Nat.le_trans (by decide) (windowLine_bounds within).1
  have registers : ∀ i, v.register i = v₀.register i := h.register
  unfold Vic.lineSetting stillSetting Vic.mode Vic.backgrounds
  simp only [registers, h.denLatch, h.displayState]
  rw [← latched]
  rfl

/-! ## The cells -/

theorem linesAbove_of_inRows (h : v.inRows line = true) :
    v.linesAbove line = line - v.rowStart ∧ line - v.rowStart < rowLines := by
  unfold inRows at h
  simp only [Bool.and_eq_true, decide_eq_true_eq] at h
  unfold linesAbove
  omega

theorem matrix_in_bank (v : Vic) {place : Nat} (h : place < 0x400) :
    (v.screenBase + place) % 0x4000 = v.screenBase + place := by
  have most : (v.register 0x18 >>> 4).toNat < 16 := by
    rw [UInt8.toNat_shiftRight]
    have := (v.register 0x18).toNat_lt
    simp [Nat.shiftRight_eq_div_pow]
    omega
  unfold screenBase
  omega

theorem font_in_bank (v : Vic) {code k : Nat} (hcode : code < 0x100) (hk : k < 8) :
    (v.charBase + code * 8 + k) % 0x4000 = v.charBase + 8 * code + k := by
  have most : (v.register 0x18 >>> 1 &&& 0x07).toNat < 8 := by
    rw [UInt8.toNat_and]
    exact Nat.lt_of_le_of_lt Nat.and_le_right (by decide : (0x07 : UInt8).toNat < 8)
  unfold charBase
  omega

/-- While a row is shown its cells lie one after another, and nothing wraps. -/
theorem Sequenced.cellOffset (h : Shows v₀ memory line v) (within : v₀.inRows line = true) {c : Nat}
    (hc : c < textColumns) :
    v.cellOffset c = 40 * ((line - v₀.rowStart) / 8) + c ∧ v.cellOffset c < 1000 := by
  obtain ⟨above, few⟩ := linesAbove_of_inRows within
  have row : v.row = (line - v₀.rowStart) / 8 := by rw [h.row, above]
  have last : (line - v₀.rowStart) / 8 < 25 := Nat.div_lt_of_lt_mul few
  unfold textColumns at hc
  unfold Vic.cellOffset textColumns
  rw [row, Nat.mod_eq_of_lt (by omega)]
  omega

theorem Sequenced.bitmapIndex (h : Shows v₀ memory line v) (within : v₀.inRows line = true)
    {c : Nat} (hc : c < textColumns) :
    v.bitmapIndexing.index c =
      8 * (40 * ((line - v₀.rowStart) / 8) + c) + (line - v₀.rowStart) % 8 := by
  obtain ⟨above, few⟩ := linesAbove_of_inRows within
  have row : v.row = (line - v₀.rowStart) / 8 := by rw [h.row, above]
  have rc : v.rc = (line - v₀.rowStart) % 8 := by rw [h.rc within, above]
  have last : (line - v₀.rowStart) / 8 < 25 := Nat.div_lt_of_lt_mul few
  unfold Indexing.index bitmapIndexing
  simp only [row, rc]
  rw [show (0x1FFF : Nat) = 2 ^ 13 - 1 from rfl, Nat.and_two_pow_sub_one_eq_mod]
  unfold textColumns at hc ⊢
  omega

/-- The cells of the row that is shown, from the memory. -/
theorem Sequenced.cells_byteAt (h : Shows v₀ memory line v) (within : v₀.inRows line = true)
    {c : Nat} (hc : c < textColumns) (mode : DisplayMode) :
    (v.cells memory mode).screen.byteAt c =
        memory.read (v₀.screenBase + (40 * ((line - v₀.rowStart) / 8) + c)) ∧
      (v.cells memory mode).colour.byteAt c =
        memory.colour (40 * ((line - v₀.rowStart) / 8) + c) &&& 0x0F := by
  obtain ⟨place, few⟩ := h.cellOffset within hc
  obtain ⟨screen, colour⟩ := h.cells within c hc
  have base : v.screenBase = v₀.screenBase := by unfold Vic.screenBase; rw [h.register]
  rw [v.matrix_in_bank (by omega), base, place] at screen
  rw [place] at colour
  unfold Vic.cells
  simp only []
  rw [Bytes.byteAt_of_lt _ hc, Bytes.byteAt_of_lt _ hc, Bytes.get_ofFn, Bytes.get_ofFn, place]
  exact ⟨screen, colour⟩

/-- A cell of the line that is shown. -/
theorem Sequenced.cellPixel (h : Shows v₀ memory line v) (within : v₀.inRows line = true) {c : Nat}
    (hc : c < textColumns) (i : Nat) :
    Vic.cellPixel v₀.mode ((v.cells memory v₀.mode).pattern.byteAt c)
      ((v.cells memory v₀.mode).screen.byteAt c) ((v.cells memory v₀.mode).colour.byteAt c)
      v₀.backgrounds i =
    v₀.matrixPixel memory (40 * ((line - v₀.rowStart) / 8) + c) ((line - v₀.rowStart) % 8) i := by
  obtain ⟨screen, colour⟩ := h.cells_byteAt within hc v₀.mode
  obtain ⟨above, -⟩ := linesAbove_of_inRows within
  have rc : v.rc = (line - v₀.rowStart) % 8 := by rw [h.rc within, above]
  have pattern : (v.cells memory v₀.mode).pattern.byteAt c = memory.read
      (if v₀.mode.isBitmap then
        v₀.bitmapBase + (8 * (40 * ((line - v₀.rowStart) / 8) + c) + (line - v₀.rowStart) % 8)
      else v₀.charBase + 8 * ((v.cells memory v₀.mode).screen.byteAt c &&&
        v₀.mode.codeMask).toNat + (line - v₀.rowStart) % 8) := by
    have bitmapBase : v.bitmapBase = v₀.bitmapBase := by unfold Vic.bitmapBase; rw [h.register]
    have charBase : v.charBase = v₀.charBase := by unfold Vic.charBase; rw [h.register]
    rw [Bytes.byteAt_of_lt _ hc]
    unfold Vic.cells
    simp only []
    rw [Bytes.get_ofFn]
    split
    · rw [h.bitmapIndex within hc, bitmapBase]
    · unfold fetchPattern
      simp only []
      rw [font_in_bank _ (UInt8.toNat_lt _) (rc ▸ Nat.mod_lt _ (by decide)), charBase, rc]
  unfold matrixPixel
  rw [pattern, screen, colour]

/-! ## A line -/

/-- The run of a line that shows a character row. -/
theorem Sequenced.graphicsPixel (h : Shows v₀ memory line v) (within : v₀.inRows line = true)
    {x : Nat} (hx : border ≤ x ∧ x < border + runLength) :
    Vic.graphicsPixel v₀.mode (v.cells memory v₀.mode) v₀.backgrounds v₀.xScroll (x - border) =
      if x < 48 + v₀.xScroll then
        if v₀.mode = .invalid then 0 else v₀.register 0x21 &&& 0x0F
      else v₀.matrixPixel memory
        (40 * ((line - v₀.rowStart) / 8) + (x - 48 - v₀.xScroll) / 8)
        ((line - v₀.rowStart) % 8) ((x - 48 - v₀.xScroll) % 8) := by
  unfold Vic.graphicsPixel
  unfold border runLength at *
  by_cases uncovered : x < 48 + v₀.xScroll
  · rw [if_pos uncovered, if_pos (by omega)]
    simp [backgrounds]
  · rw [if_neg uncovered, if_neg (by omega)]
    exact h.cellPixel within (by omega) _

/-- The pixels of the window. -/
theorem Sequenced.pixel (h : Shows v₀ memory line v) (visible : v₀.windowLine line = true) {x : Nat}
    (column : v₀.windowColumn x = true) :
    (v.backdrop memory (v₀.stillSetting line)).pixel (x - border) = v₀.still memory line x := by
  have both : (v₀.windowLine line && v₀.windowColumn x) = true := by rw [visible, column]; rfl
  unfold still
  rw [if_pos both]
  cases within : v₀.inRows line with
  | true =>
    have graphics : (v₀.stillSetting line).graphics = true := by
      unfold stillSetting
      rw [visible, within]
      rfl
    rw [v.backdrop_of_graphics memory graphics]
    exact h.graphicsPixel within (windowColumn_bounds column)
  | false =>
    have idle : (v₀.stillSetting line).graphics = false := by
      unfold stillSetting
      rw [within]
      exact Bool.and_false _
    rw [v.backdrop_of_idle memory idle]
    rfl

/-- The picture of a line that is shown is what is to be seen there. -/
theorem Sequenced.picture (h : Shows v₀ memory line v) (bare : v₀.register 0x15 = 0) :
    v.picture memory line = v₀.stillLine memory line := by
  have none : (v.spritesOn memory line).isEmpty = true :=
    SpriteRow.isEmpty_fetch ((h.register 0x15).trans bare) line v.screenBase memory
  ext x
  unfold Vic.picture stillLine
  rw [Bytes.get_ofFn]
  simp only [h.lineSetting, laidOver_of_isEmpty none]
  cases visible : v₀.windowLine line with
  | false =>
    rw [if_neg (by simp [stillSetting, visible]), Bytes.get_replicate]
    simp [still, visible, stillSetting]
  | true =>
    have shown : (v₀.stillSetting line).inWindow = true := visible
    rw [if_pos shown]
    unfold framed
    rw [Bytes.get_ofFn]
    by_cases column : v₀.windowColumn x.val = true
    · rw [if_pos ((v₀.windowColumn_iff line x.val).mp column), ← h.pixel visible column]
      unfold placeRun
      rw [Bytes.get_ofFn, if_pos (windowColumn_bounds column)]
    · rw [if_neg (mt (v₀.windowColumn_iff line x.val).mpr column)]
      simp [still, column, stillSetting]

/-! ## The frame -/

/-- The lines above a raster line show what is to be seen there. -/
def DrawnAbove (v₀ : Vic) (memory : VideoMemory) (line : Nat) (v : Vic) : Prop :=
  ∀ above < line, ∀ l ∈ v.line? above, l.pixels = v₀.stillLine memory above

theorem DrawnAbove.endOfLine {ended : Bool} (h : DrawnAbove v₀ memory line v) (sound : Sound v)
    (reaches : Reaches v₀ memory line v) (on : anyBit (v₀.register 0x11) 0x10 = true)
    (bare : v₀.register 0x15 = 0) (hrun : v.endOfLine memory = .ok (ended, v')) :
    DrawnAbove v₀ memory (line + 1) v' := by
  obtain ⟨others, own⟩ := sound.endOfLine_line? hrun
  rw [reaches.rasterLine] at others own
  intro above habove l hl
  rcases Nat.lt_succ_iff_lt_or_eq.mp habove with before | rfl
  · rw [others above (Nat.ne_of_lt before)] at hl
    exact h above before l hl
  · rw [(own l hl).1, (reaches.beginLine on).picture bare]

theorem runLines_go {ended : Bool} (hend : v.endOfLine memory = .ok (ended, v'))
    (frames : Nat) (bad : List Nat) (n : Nat) : ∃ bad',
      runLines.go memory true frames bad (n + 1) v =
        if ended then .ok (frames + 1, bad'.reverse, v')
        else runLines.go memory true frames bad' n v' := by
  refine ⟨if v.isBadline then v.rasterLine :: bad else bad, ?_⟩
  conv =>
    lhs
    unfold runLines.go
  simp only [hend, ok_bind]
  cases ended <;> rfl

/-- From a line of the frame to its end. -/
theorem DrawnAbove.runLines (on : anyBit (v₀.register 0x11) 0x10 = true)
    (bare : v₀.register 0x15 = 0) (n : Nat) (hn : line + (n + 1) = v₀.standard.linesPerFrame)
    (h : DrawnAbove v₀ memory line v) (sound : Sound v) (reaches : Reaches v₀ memory line v)
    (frames : Nat) (bad : List Nat) :
    ∃ bad' v', Vic.runLines.go memory true frames bad (n + 1) v = .ok (frames + 1, bad', v') ∧
      Sound v' ∧ v'.standard = v₀.standard ∧
      DrawnAbove v₀ memory v₀.standard.linesPerFrame v' := by
  induction n generalizing line v bad with
  | zero =>
    obtain ⟨ended, v', hend, sound'⟩ := sound.endOfLine memory
    obtain ⟨last, -⟩ := reaches.endOfLine sound on hend
    obtain ⟨bad', hgo⟩ := runLines_go hend frames bad 0
    have drawn := h.endOfLine sound reaches on bare hend
    rw [last, decide_eq_true (by omega), if_pos rfl] at hgo
    refine ⟨bad'.reverse, v', hgo, sound', (sound.endOfLine_standard hend).trans reaches.standard, ?_⟩
    rwa [← hn]
  | succ n ih =>
    obtain ⟨ended, v', hend, sound'⟩ := sound.endOfLine memory
    obtain ⟨last, next⟩ := reaches.endOfLine sound on hend
    obtain ⟨bad', hgo⟩ := runLines_go hend frames bad (n + 1)
    have drawn := h.endOfLine sound reaches on bare hend
    rw [last, decide_eq_false (by omega), if_neg (by simp)] at hgo
    rw [hgo]
    exact ih (by omega) drawn sound' (next (by omega)) _

/-- A frame that starts at its first line, with the display on, no sprites and nothing written
meanwhile, leaves in every line that is kept what is to be seen there, and keeps all lines of the
window. -/
theorem still_frame (h : Reachable v) (start : v.rasterLine = 0)
    (on : anyBit (v.register 0x11) 0x10 = true) (bare : v.register 0x15 = 0)
    (memory : VideoMemory) :
    ∃ bad v', v.runLines memory true v.standard.linesPerFrame = .ok (1, bad, v') ∧
      (∀ line, v'.pixels? line = (v.standard.row? line).map fun _ => v.stillLine memory line) ∧
      ∀ line, v.windowLine line = true → (v.standard.row? line).isSome = true := by
  have none : DrawnAbove v memory 0 v := fun above habove => absurd habove (Nat.not_lt_zero above)
  obtain ⟨n, hn⟩ : ∃ n, 0 + (n + 1) = v.standard.linesPerFrame := by
    cases v.standard
    · exact ⟨311, rfl⟩
    · exact ⟨262, rfl⟩
  obtain ⟨bad, v', hgo, sound, standard, drawn⟩ :=
    none.runLines on bare n hn h.sound (h.reaches start memory) 0 []
  refine ⟨bad, v', ?_, fun line => ?_, fun line => isSome_row?⟩
  · rw [← hn, Nat.zero_add]
    exact hgo
  · have kept := sound.isSome_pixels? line
    rw [standard] at kept
    cases hrow : v.standard.row? line with
    | none =>
      rw [hrow] at kept
      simpa using kept
    | some index =>
      have below : line < v.standard.linesPerFrame := by
        unfold VideoStandard.row? at hrow
        split at hrow
        · next visible =>
          refine Nat.lt_of_lt_of_le visible.2 ?_
          cases v.standard <;> decide
        · exact absurd hrow (by simp)
      rw [hrow, Option.isSome_some, pixels?_eq, Option.isSome_map] at kept
      obtain ⟨l, hl⟩ := Option.isSome_iff_exists.mp kept
      rw [pixels?_eq, hl, Option.map_some, Option.map_some, drawn line below l hl]

/-- A chip that shows text, three lines down. -/
def textScreen : Vic := (((new .pal).write 0x11 0x1B).write 0x16 0x08).write 0x18 0x14

/-- A memory that holds its own addresses. -/
def countedMemory : VideoMemory := ⟨fun address => address.toUInt8, fun address => address.toUInt8⟩

/-- The second line of the second character has its fifth pixel set, in the colour of that cell. -/
theorem still_frame_text : textScreen.rasterLine = 0 ∧
    anyBit (textScreen.register 0x11) 0x10 = true ∧ textScreen.register 0x15 = 0 ∧
    textScreen.still countedMemory 0x34 60 = 1 ∧
    ∃ bad v', textScreen.runLines countedMemory true textScreen.standard.linesPerFrame =
        .ok (1, bad, v') ∧
      (∀ line, v'.pixels? line =
        (textScreen.standard.row? line).map fun _ => textScreen.stillLine countedMemory line) ∧
      ∀ line, textScreen.windowLine line = true →
        (textScreen.standard.row? line).isSome = true := by
  have reachable : Reachable textScreen := .write _ _ (.write _ _ (.write _ _ (.new .pal)))
  have start : textScreen.rasterLine = 0 := rfl
  have on : anyBit (textScreen.register 0x11) 0x10 = true := by decide +kernel
  have bare : textScreen.register 0x15 = 0 := by decide +kernel
  exact ⟨start, on, bare, by decide +kernel, still_frame reachable start on bare countedMemory⟩

end C64.Vic
