import C64.Proofs.Vic.Lines

/-!
# Character rows over a frame

A badline begins a character row, which ends eight lines later, and there the next badline comes
at once. So with the display on, and with nothing written over a frame, the row, the pixel row
within it and the cells at hand follow from the raster line alone: from how many of the two
hundred lines of character rows lie above it (`Sequenced.endOfLine`).
-/

namespace C64.Vic

open Raster

/-- How far down the character rows are moved. -/
def yScroll (v : Vic) : Nat := (v.register 0x11 &&& 0x07).toNat

/-- The first raster line of the first character row. -/
def rowStart (v : Vic) : Nat := displayStart + v.yScroll

/-- The raster lines of all character rows. -/
def rowLines : Nat := 200

/-- Whether a raster line shows a character row. -/
def inRows (v : Vic) (line : Nat) : Bool := v.rowStart ≤ line && line < v.rowStart + rowLines

/-- How many lines of character rows lie above a raster line. -/
def linesAbove (v : Vic) (line : Nat) : Nat := min (line - v.rowStart) rowLines

/-- The cells of the current row are those in the memory. -/
def HoldsRow (v : Vic) (memory : VideoMemory) : Prop :=
  ∀ cell < textColumns,
    v.matrix.byteAt (v.cellOffset cell) =
      memory.read ((v.screenBase + v.cellOffset cell) % 0x4000) ∧
    v.colour.byteAt (v.cellOffset cell) = memory.colour (v.cellOffset cell) &&& 0x0F

/-- A chip that started a frame as `v₀` has come to a raster line. Whether the display is latched
and a row displayed changes on the line itself. -/
structure Sequenced (v₀ : Vic) (memory : VideoMemory) (line : Nat) (latched displays : Bool)
    (v : Vic) : Prop where
  standard : v.standard = v₀.standard
  registers : v.registers = v₀.registers
  rasterLine : v.rasterLine = line
  denLatch : v.denLatch = latched
  displayState : v.displayState = displays
  row : v.row = v₀.linesAbove line / 8
  rc : displays = true → v.rc = v₀.linesAbove line % 8
  cells : displays = true → v.HoldsRow memory

/-- At the start of a line a row is displayed if it began further up and has not ended. -/
abbrev Reaches (v₀ : Vic) (memory : VideoMemory) (line : Nat) (v : Vic) : Prop :=
  Sequenced v₀ memory line (displayStart < line) (v₀.linesAbove line % 8 ≠ 0) v

/-- When a line is rendered, a row that begins there is displayed as well. -/
abbrev Shows (v₀ : Vic) (memory : VideoMemory) (line : Nat) (v : Vic) : Prop :=
  Sequenced v₀ memory line (displayStart ≤ line) (v₀.inRows line) v

variable {v₀ v v' : Vic} {memory : VideoMemory} {line : Nat} {latched displays ended : Bool}

theorem yScroll_lt (v : Vic) : v.yScroll < 8 := by
  unfold yScroll
  rw [UInt8.toNat_and]
  exact Nat.lt_of_le_of_lt Nat.and_le_right (by decide : (0x07 : UInt8).toNat < 8)

theorem Sequenced.register (h : Sequenced v₀ memory line latched displays v) (i : Nat) :
    v.register i = v₀.register i := by
  unfold Vic.register
  rw [h.registers]

/-! ## One line -/

theorem Sequenced.latchDisplay (h : Sequenced v₀ memory line (displayStart < line) displays v)
    (on : anyBit (v₀.register 0x11) 0x10 = true) :
    Sequenced v₀ memory line (displayStart ≤ line) displays v.latchDisplay := by
  have atLine := h.rasterLine
  unfold Vic.latchDisplay
  split
  · next first =>
    refine ⟨h.standard, h.registers, h.rasterLine, ?_, h.displayState, h.row, h.rc, h.cells⟩
    exact (decide_eq_true (by omega)).symm
  · next other =>
    refine ⟨h.standard, h.registers, h.rasterLine, ?_, h.displayState, h.row, h.rc, h.cells⟩
    have apart : v.rasterLine ≠ displayStart := by
      rw [h.register] at other
      exact fun first => other ⟨first, on⟩
    rw [h.denLatch, decide_eq_decide]
    omega

/-- Badlines are the lines of the display area where no row is under way. -/
theorem Sequenced.isBadline (h : Sequenced v₀ memory line (displayStart ≤ line) displays v) :
    v.isBadline = (v₀.inRows line && v₀.linesAbove line % 8 = 0) := by
  have scroll := v₀.yScroll_lt
  have matched : (v.register 0x11 &&& 0x07).toNat = v₀.yScroll := by rw [h.register]; rfl
  rw [Bool.eq_iff_iff]
  simp only [Vic.isBadline, inRows, h.denLatch, h.rasterLine, matched, Bool.and_eq_true,
    decide_eq_true_eq]
  unfold linesAbove rowStart rowLines displayStart displayStop
  omega

theorem Sequenced.beginRow (h : Sequenced v₀ memory line latched displays v)
    (first : v₀.linesAbove line % 8 = 0) :
    Sequenced v₀ memory line latched true (v.beginRow memory) := by
  obtain ⟨matrix, colour, heq, cells⟩ := v.beginRow_cells memory
  rw [heq]
  exact ⟨h.standard, h.registers, h.rasterLine, h.denLatch, rfl, h.row, fun _ => first.symm,
    fun _ => cells⟩

theorem Sequenced.beginLine (h : Reaches v₀ memory line v)
    (on : anyBit (v₀.register 0x11) 0x10 = true) : Shows v₀ memory line (v.beginLine memory) := by
  have begun := h.latchDisplay on
  rw [beginLine_eq, begun.isBadline]
  split
  · next bad =>
    simp only [Bool.and_eq_true, decide_eq_true_eq] at bad
    have started := begun.beginRow bad.2
    rwa [Shows, bad.1]
  · next between =>
    -- Either a row is under way or the line lies above or below all of them.
    have under : decide (v₀.linesAbove line % 8 ≠ 0) = v₀.inRows line := by
      simp only [Bool.and_eq_true, decide_eq_true_eq] at between
      rw [Bool.eq_iff_iff, decide_eq_true_eq]
      unfold inRows linesAbove rowLines at *
      simp only [Bool.and_eq_true, decide_eq_true_eq] at *
      omega
    rwa [under] at begun

/-- Rendering a line leaves alone what the rows are counted by. -/
theorem Sequenced.renderLine (h : Sequenced v₀ memory line latched displays v) (sound : Sound v)
    {damage : Damage} (hrun : v.renderLine memory line = .ok (damage, v')) :
    Sequenced v₀ memory line latched displays v' := by
  obtain ⟨_, bitmap, cache, hrender, -⟩ := sound.renderLine memory line
  rw [hrender] at hrun
  cases hrun
  obtain ⟨_, _, _, latched⟩ := { v with bitmap, cache }.latchCollisions_eq (v.touching memory line)
  rw [latched]
  exact ⟨h.standard, h.registers, h.rasterLine, h.denLatch, h.displayState, h.row, h.rc, h.cells⟩

theorem linesAbove_succ (v : Vic) (line : Nat) :
    v.linesAbove (line + 1) = if v.inRows line then v.linesAbove line + 1 else v.linesAbove line := by
  unfold linesAbove inRows rowLines
  split
  · next within =>
    simp only [Bool.and_eq_true, decide_eq_true_eq] at within
    omega
  · next outside =>
    simp only [Bool.and_eq_true, decide_eq_true_eq] at outside
    omega

/-- The row and the pixel row move on with the lines of the rows. -/
theorem Sequenced.advanceRow (h : Sequenced v₀ memory line latched (v₀.inRows line) v) :
    v.advanceRow.row = v₀.linesAbove (line + 1) / 8 ∧
      v.advanceRow.displayState = decide (v₀.linesAbove (line + 1) % 8 ≠ 0) ∧
      (v.advanceRow.displayState = true →
        v.advanceRow.rc = v₀.linesAbove (line + 1) % 8 ∧ v.advanceRow.HoldsRow memory) := by
  have row := h.row
  have state := h.displayState
  rw [linesAbove_succ]
  cases within : v₀.inRows line with
  | false =>
    have none : v₀.linesAbove line % 8 = 0 := by
      unfold inRows linesAbove rowLines at *
      simp only [Bool.and_eq_false_iff, decide_eq_false_iff_not] at within
      omega
    rw [within] at state
    simp [Vic.advanceRow, state, none, row]
  | true =>
    have rc := h.rc within
    have cells := h.cells within
    rw [within] at state
    by_cases last : v.rc = 7
    · have complete : (v₀.linesAbove line + 1) % 8 = 0 := by omega
      simp [Vic.advanceRow, state, last, complete, row]
      omega
    · have goes : (v₀.linesAbove line + 1) % 8 = v.rc + 1 := by omega
      simp only [Vic.advanceRow, state, last, goes, Bool.not_true, Bool.false_eq_true, if_false,
        if_true]
      exact ⟨by omega, by simp, fun _ => ⟨trivial, cells⟩⟩

theorem Sequenced.advance (h : Shows v₀ memory line v)
    (more : line + 1 < v₀.standard.linesPerFrame) :
    Reaches v₀ memory (line + 1) v.advanceRow.advanceLine.2 := by
  obtain ⟨row, state, rest⟩ := h.advanceRow
  obtain ⟨_, _, _, moved⟩ := v.advanceRow_eq
  rw [moved] at row state rest ⊢
  have goes : ¬v.standard.linesPerFrame ≤ v.rasterLine + 1 := by
    rw [h.standard, h.rasterLine]
    omega
  have latched : v.denLatch = decide (displayStart < line + 1) := by
    rw [h.denLatch, decide_eq_decide]
    omega
  have next : v.rasterLine + 1 = line + 1 := congrArg (· + 1) h.rasterLine
  unfold Vic.advanceLine
  simp only [goes, if_false]
  split <;>
    exact ⟨h.standard, h.registers, next, latched, state, row,
      fun on => (rest (state.trans on)).1, fun on => (rest (state.trans on)).2⟩

/-! ## From line to line -/

/-- The end of a line leads to the next one, and the last one ends the frame. -/
theorem Sequenced.endOfLine (h : Reaches v₀ memory line v) (sound : Sound v)
    (on : anyBit (v₀.register 0x11) 0x10 = true) (hrun : v.endOfLine memory = .ok (ended, v')) :
    ended = decide (v₀.standard.linesPerFrame ≤ line + 1) ∧
      (line + 1 < v₀.standard.linesPerFrame → Reaches v₀ memory (line + 1) v') := by
  obtain ⟨⟨damage, rendered⟩, hrender, hret⟩ := bind_eq_ok.mp hrun
  rw [h.rasterLine] at hrender
  have shows : Shows v₀ memory line rendered :=
    (h.beginLine on).renderLine (sound.beginLine memory) hrender
  obtain ⟨standard, rasterLine, -⟩ := rendered.advanceRow_frame
  obtain rfl : rendered.advanceRow.advanceLine.1 = ended := congrArg Prod.fst (Except.ok.inj hret)
  obtain rfl : rendered.advanceRow.advanceLine.2 = v' := congrArg Prod.snd (Except.ok.inj hret)
  refine ⟨?_, shows.advance⟩
  unfold Vic.advanceLine
  simp only [standard, rasterLine, shows.standard, shows.rasterLine]

/-! ## The first line -/

/-- At the first line of a frame nothing is latched and no row displayed. -/
structure Fresh (v : Vic) : Prop where
  denLatch : v.denLatch = false
  displayState : v.displayState = false

theorem advanceLine_fresh (v : Vic) (start : v.advanceLine.2.rasterLine = 0) :
    v.advanceLine.2.Fresh := by
  unfold advanceLine at start ⊢
  simp only [] at start ⊢
  by_cases last : v.standard.linesPerFrame ≤ v.rasterLine + 1
  · simp only [last, if_true]
    split <;> exact ⟨rfl, rfl⟩
  · simp only [last, if_false] at start
    split at start <;> exact absurd start (Nat.succ_ne_zero _)

theorem Reachable.fresh (h : Reachable v) (start : v.rasterLine = 0) : v.Fresh := by
  induction h with
  | new standard => exact ⟨rfl, rfl⟩
  | reset _ _ => exact ⟨rfl, rfl⟩
  | invalidate _ ih => exact ⟨(ih start).denLatch, (ih start).displayState⟩
  | read r _ ih =>
    unfold Vic.read at start ⊢
    simp only [] at start ⊢
    split at start <;> exact ⟨(ih start).denLatch, (ih start).displayState⟩
  | write r b _ ih =>
    unfold Vic.write at start ⊢
    simp only [] at start ⊢
    split at start <;> exact ⟨(ih start).denLatch, (ih start).displayState⟩
  | @renderLine v v' memory line _ before hrender ih =>
    obtain ⟨_, bitmap, cache, hok, -⟩ := before.sound.renderLine memory line
    rw [hok] at hrender
    cases hrender
    obtain ⟨_, _, _, latched⟩ := { v with bitmap, cache }.latchCollisions_eq (v.touching memory line)
    rw [latched] at start ⊢
    exact ⟨(ih start).denLatch, (ih start).displayState⟩
  | endOfLine _ hend _ =>
    obtain ⟨⟨_, rendered⟩, -, hret⟩ := bind_eq_ok.mp hend
    cases hret
    exact advanceLine_fresh _ start
  | @present v v' _ _ _ _ _ _ hpresent ih =>
    obtain ⟨_, -, hret⟩ := bind_eq_ok.mp hpresent
    obtain ⟨cache, rfl⟩ : ∃ cache, v' = { v with cache } := by
      cases hret
      split
      · exact ⟨_, rfl⟩
      · exact ⟨v.cache, rfl⟩
    exact ⟨(ih start).denLatch, (ih start).displayState⟩

/-- A frame starts where its first line does. -/
theorem Reachable.reaches (h : Reachable v) (start : v.rasterLine = 0) (memory : VideoMemory) :
    Reaches v memory 0 v := by
  have none : v.linesAbove 0 = 0 := by simp [linesAbove]
  have first : v.row = 0 := Nat.le_zero.mp (start ▸ h.sound.row)
  obtain ⟨denLatch, displayState⟩ := h.fresh start
  refine ⟨rfl, rfl, start, ?_, ?_, ?_, ?_, ?_⟩ <;> simp [none, first, denLatch, displayState]

end C64.Vic
