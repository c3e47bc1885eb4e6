import C64.Proofs.Vic.Rows
import C64.Proofs.Vic.Tight

/-!
# Idle screens

A frame begins the same whatever counters the frame before has left behind, and with the same
registers and memory it goes on the same: two chips that are in step stay so
(`InStep.endOfLine`). So once a frame was rendered and delivered, every line is up to date: it was
rendered under the setting, and to the pixels, that further frames come to as well. They find
nothing changed (`Idle.endOfLine`) and send nothing (`idle_frames`).
-/

namespace C64.Vic

open Raster

variable {v w u v' w' : Vic} {memory : VideoMemory} {line n : Nat} {ended ended' : Bool}

/-! ## Chips in step -/

/-- Two chips are at the same place of the same frame, whatever they keep, count and latch. Without
a row displayed the pixel row does not count. -/
structure InStep (memory : VideoMemory) (v w : Vic) : Prop where
  standard : v.standard = w.standard
  registers : v.registers = w.registers
  rasterLine : v.rasterLine = w.rasterLine
  denLatch : v.denLatch = w.denLatch
  displayState : v.displayState = w.displayState
  row : v.row = w.row
  rc : v.displayState = true → v.rc = w.rc
  left : v.displayState = true → v.HoldsRow memory
  right : w.displayState = true → w.HoldsRow memory

theorem InStep.symm (h : InStep memory v w) : InStep memory w v where
  standard := h.standard.symm
  registers := h.registers.symm
  rasterLine := h.rasterLine.symm
  denLatch := h.denLatch.symm
  displayState := h.displayState.symm
  row := h.row.symm
  rc on := (h.rc (h.displayState.trans on)).symm
  left := h.right
  right := h.left

theorem InStep.trans (h : InStep memory v w) (h' : InStep memory w u) : InStep memory v u where
  standard := h.standard.trans h'.standard
  registers := h.registers.trans h'.registers
  rasterLine := h.rasterLine.trans h'.rasterLine
  denLatch := h.denLatch.trans h'.denLatch
  displayState := h.displayState.trans h'.displayState
  row := h.row.trans h'.row
  rc on := (h.rc on).trans (h'.rc (h.displayState.symm.trans on))
  left := h.left
  right := h'.right

/-- At the first line of a frame chips are in step. -/
theorem Reachable.inStep (hv : Reachable v) (hw : Reachable w) (standard : v.standard = w.standard)
    (registers : v.registers = w.registers) (start : v.rasterLine = 0) (start' : w.rasterLine = 0) :
    InStep memory v w := by
  have fresh := hv.fresh start
  have fresh' := hw.fresh start'
  have row : v.row = 0 := Nat.le_zero.mp (start ▸ hv.sound.row)
  have row' : w.row = 0 := Nat.le_zero.mp (start' ▸ hw.sound.row)
  have off (displays : v.displayState = true) : False := by simp [fresh.displayState] at displays
  have off' (displays : w.displayState = true) : False := by simp [fresh'.displayState] at displays
  exact ⟨standard, registers, start.trans start'.symm, fresh.denLatch.trans fresh'.denLatch.symm,
    fresh.displayState.trans fresh'.displayState.symm, row.trans row'.symm,
    fun on => (off on).elim, fun on => (off on).elim, fun on => (off' on).elim⟩

/-- What is kept and what was latched does not count. -/
theorem InStep.unseen (h : InStep memory v w) (cache : Cache shape)
    (spriteCollision backgroundCollision : UInt8) :
    InStep memory v { w with cache, spriteCollision, backgroundCollision } :=
  ⟨h.standard, h.registers, h.rasterLine, h.denLatch, h.displayState, h.row, h.rc, h.left, h.right⟩

/-! ### What they show -/

theorem InStep.register (h : InStep memory v w) (i : Nat) : v.register i = w.register i := by
  unfold Vic.register
  rw [h.registers]

theorem InStep.cellOffset (h : InStep memory v w) (cell : Nat) :
    v.cellOffset cell = w.cellOffset cell := by
  unfold Vic.cellOffset
  rw [h.row]

theorem InStep.lineSetting (h : InStep memory v w) (line : Nat) :
    v.lineSetting line = w.lineSetting line := by
  unfold Vic.lineSetting Vic.mode
  simp only [h.register, h.denLatch, h.displayState]

theorem InStep.spritesOn (h : InStep memory v w) (line : Nat) :
    v.spritesOn memory line = w.spritesOn memory line := by
  unfold Vic.spritesOn Vic.screenBase
  rw [h.registers, h.register]

theorem InStep.cells (h : InStep memory v w) (displays : v.displayState = true)
    (mode : DisplayMode) : v.cells memory mode = w.cells memory mode := by
  have left := h.left displays
  have right := h.right (h.displayState.symm.trans displays)
  have screenBase : v.screenBase = w.screenBase := by
    unfold Vic.screenBase
    rw [h.register]
  have screen : (Bytes.ofFn fun i : Fin textColumns => v.matrix.byteAt (v.cellOffset i.val)) =
      .ofFn fun i => w.matrix.byteAt (w.cellOffset i.val) := by
    congr 1
    funext i
    rw [(left i i.isLt).1, (right i i.isLt).1, screenBase, h.cellOffset]
  have colour : (Bytes.ofFn fun i : Fin textColumns => v.colour.byteAt (v.cellOffset i.val)) =
      .ofFn fun i => w.colour.byteAt (w.cellOffset i.val) := by
    congr 1
    funext i
    rw [(left i i.isLt).2, (right i i.isLt).2, h.cellOffset]
  unfold Vic.cells fetchPattern Vic.bitmapIndexing Vic.bitmapBase Vic.charBase
  simp only [screen, colour, h.register, h.row, h.rc displays]

theorem InStep.picture (h : InStep memory v w) (line : Nat) :
    v.picture memory line = w.picture memory line := by
  have backdrop : v.backdrop memory (v.lineSetting line) =
      w.backdrop memory (v.lineSetting line) := by
    unfold Vic.backdrop
    split
    · next graphics =>
      have displays : v.displayState = true := by
        unfold Vic.lineSetting at graphics
        simp only [Bool.and_eq_true] at graphics
        exact graphics.2
      rw [h.cells displays]
    · rfl
  unfold Vic.picture
  simp only [← h.lineSetting, ← h.spritesOn, ← backdrop]

/-! ### From line to line -/

theorem InStep.latchDisplay (h : InStep memory v w) :
    InStep memory v.latchDisplay w.latchDisplay := by
  unfold Vic.latchDisplay
  rw [← h.rasterLine, ← h.register]
  split
  · exact ⟨h.standard, h.registers, rfl, rfl, h.displayState, h.row, h.rc, h.left, h.right⟩
  · exact h

theorem InStep.beginLine (h : InStep memory v w) :
    InStep memory (v.beginLine memory) (w.beginLine memory) := by
  have latched := h.latchDisplay
  have badline : v.latchDisplay.isBadline = w.latchDisplay.isBadline := by
    unfold Vic.isBadline
    rw [latched.denLatch, latched.rasterLine, latched.register]
  rw [beginLine_eq, beginLine_eq, ← badline]
  split
  · obtain ⟨matrix, colour, begun, cells⟩ := v.latchDisplay.beginRow_cells memory
    obtain ⟨matrix', colour', begun', cells'⟩ := w.latchDisplay.beginRow_cells memory
    rw [begun, begun']
    exact ⟨latched.standard, latched.registers, latched.rasterLine, latched.denLatch, rfl,
      latched.row, fun _ => rfl, fun _ => cells, fun _ => cells'⟩
  · exact latched

theorem InStep.advanceRow (h : InStep memory v w) : InStep memory v.advanceRow w.advanceRow := by
  unfold Vic.advanceRow
  rw [← h.displayState]
  cases displays : v.displayState with
  | false => exact h
  | true =>
    rw [← h.rc displays]
    simp only [Bool.not_true, Bool.false_eq_true, if_false]
    split
    · exact ⟨h.standard, h.registers, h.rasterLine, h.denLatch, rfl, congrArg (· + 1) h.row, nofun,
        nofun, nofun⟩
    · exact ⟨h.standard, h.registers, h.rasterLine, h.denLatch, rfl, h.row, fun _ => rfl,
        fun _ => h.left displays, fun _ => h.right (h.displayState.symm.trans displays)⟩

theorem InStep.advanceLine (h : InStep memory v w) :
    v.advanceLine.1 = w.advanceLine.1 ∧ InStep memory v.advanceLine.2 w.advanceLine.2 := by
  unfold Vic.advanceLine
  rw [← h.standard, ← h.rasterLine]
  by_cases last : v.standard.linesPerFrame ≤ v.rasterLine + 1
  · simp only [last, decide_true, if_true, true_and]
    split <;> split <;>
      exact ⟨rfl, h.registers, rfl, rfl, rfl, rfl, nofun, nofun, nofun⟩
  · simp only [last, decide_false, if_false, true_and]
    split <;> split <;>
      exact ⟨rfl, h.registers, rfl, h.denLatch, h.displayState, h.row, h.rc, h.left, h.right⟩

/-- Between the beginning of a line and the next, rendering leaves the place in the frame alone. -/
theorem Sound.endOfLine_eq (h : Sound v) (run : v.endOfLine memory = .ok (ended, v')) :
    ∃ bitmap cache irqStatus spriteCollision backgroundCollision,
      let rendered : Vic := { v.beginLine memory with
        bitmap, cache, irqStatus, spriteCollision, backgroundCollision }
      ended = rendered.advanceRow.advanceLine.1 ∧ v' = rendered.advanceRow.advanceLine.2 := by
  obtain ⟨_, bitmap, cache, rendered, -⟩ := (h.beginLine memory).renderLine memory v.rasterLine
  obtain ⟨_, _, _, latched⟩ := latchCollisions_eq { v.beginLine memory with bitmap, cache }
    ((v.beginLine memory).touching memory v.rasterLine)
  unfold Vic.endOfLine at run
  rw [rendered, ok_bind, latched] at run
  exact ⟨bitmap, cache, _, _, _, Prod.mk.inj (Except.ok.inj run).symm⟩

/-- Both close a line and are in step on the next. -/
theorem InStep.endOfLine (h : InStep memory v w) (hv : Sound v) (hw : Sound w)
    (run : v.endOfLine memory = .ok (ended, v')) (run' : w.endOfLine memory = .ok (ended', w')) :
    ended = ended' ∧ InStep memory v' w' := by
  obtain ⟨_, _, _, _, _, rfl, rfl⟩ := hv.endOfLine_eq run
  obtain ⟨_, _, _, _, _, rfl, rfl⟩ := hw.endOfLine_eq run'
  have begun := h.beginLine
  refine InStep.advanceLine (InStep.advanceRow ?_)
  exact ⟨begun.standard, begun.registers, begun.rasterLine, begun.denLatch, begun.displayState,
    begun.row, begun.rc, begun.left, begun.right⟩

theorem Sound.endOfLine_registers (h : Sound v) (run : v.endOfLine memory = .ok (ended, v')) :
    v'.registers = v.registers := by
  obtain ⟨_, _, _, _, _, -, rfl⟩ := h.endOfLine_eq run
  have line (w : Vic) : w.advanceLine.2.registers = w.registers := by
    unfold Vic.advanceLine
    by_cases last : w.standard.linesPerFrame ≤ w.rasterLine + 1
    · simp only [last, if_true]
      split <;> rfl
    · simp only [last, if_false]
      split <;> rfl
  have row (w : Vic) : w.advanceRow.registers = w.registers := by
    obtain ⟨_, _, _, moved⟩ := w.advanceRow_eq
    rw [moved]
  have begun : (v.beginLine memory).registers = v.registers := by
    unfold Vic.beginLine
    simp only []
    split <;> split <;> rfl
  exact (line _).trans ((row _).trans begun)

/-! ## Lines that pass -/

/-- A chip that closes a number of raster lines over the same memory, and is not written to. It may
be read, and frames may be presented, with whatever answer. -/
inductive Passes (memory : VideoMemory) (v : Vic) : Nat → Vic → Prop where
  | start : Passes memory v 0 v
  | line {n : Nat} {w w' : Vic} {ended : Bool} : Passes memory v n w →
    w.endOfLine memory = .ok (ended, w') → Passes memory v (n + 1) w'
  | read {n : Nat} {w : Vic} (r : UInt8) : Passes memory v n w → Passes memory v n (w.read r).2
  | present {n : Nat} {w w' : Vic} {σ : Type} [FrameSink σ] {sink sink' : σ}
    {status : FrameStatus} : Passes memory v n w → w.present sink = .ok (status, w', sink') →
    Passes memory v n w'

/-- The chip that does nothing but close raster lines. -/
def afterLines (v : Vic) (memory : VideoMemory) : Nat → Vic
  | 0 => v
  | n + 1 =>
    match (v.afterLines memory n).endOfLine memory with
    | .ok (_, w) => w
    | .error _ => v.afterLines memory n

theorem Passes.reachable (h : Passes memory v n w) (reach : Reachable v) : Reachable w := by
  induction h with
  | start => exact reach
  | line _ run ih => exact .endOfLine ih run
  | read r _ ih => exact .read r ih
  | present _ run ih => exact .present ih run

theorem read_eq (v : Vic) (r : UInt8) : ∃ spriteCollision backgroundCollision,
    (v.read r).2 = { v with spriteCollision, backgroundCollision } := by
  unfold Vic.read
  simp only []
  split <;> exact ⟨_, _, rfl⟩

theorem Sound.afterLines (h : Sound v) (memory : VideoMemory) (n : Nat) :
    Sound (v.afterLines memory n) ∧ ∃ ended,
      (v.afterLines memory n).endOfLine memory = .ok (ended, v.afterLines memory (n + 1)) := by
  induction n with
  | zero =>
    obtain ⟨ended, w, run, -⟩ := h.endOfLine memory
    refine ⟨h, ended, ?_⟩
    rw [Vic.afterLines.eq_2, Vic.afterLines.eq_1, run]
  | succ n ih =>
    obtain ⟨sound, ended, run⟩ := ih
    obtain ⟨_, _, run', sound'⟩ := sound.endOfLine memory
    obtain rfl := (Prod.mk.inj (Except.ok.inj (run.symm.trans run'))).2
    obtain ⟨ended, w, next, -⟩ := sound'.endOfLine memory
    refine ⟨sound', ended, ?_⟩
    rw [Vic.afterLines.eq_2 v memory (n + 1), next]

theorem Sound.passes (h : Sound v) (memory : VideoMemory) (n : Nat) :
    Passes memory v n (v.afterLines memory n) := by
  induction n with
  | zero => exact .start
  | succ n ih => exact .line ih (h.afterLines memory n).2.choose_spec

/-- However a chip passes the lines, it is in step with the one that does nothing else. -/
theorem Passes.inStep (h : Passes memory v n w) (reach : Reachable v) (start : v.rasterLine = 0) :
    InStep memory (v.afterLines memory n) w := by
  induction h with
  | start => exact reach.inStep reach rfl rfl start start
  | line before run ih =>
    obtain ⟨sound, _, plain⟩ := reach.sound.afterLines memory _
    exact (ih.endOfLine sound (before.reachable reach).sound plain run).2
  | @read n w r _ ih =>
    obtain ⟨_, _, same⟩ := w.read_eq r
    rw [same]
    exact ih.unseen w.cache _ _
  | @present _ w _ _ _ _ _ _ _ run ih =>
    rw [present_eq run]
    exact ih.unseen _ w.spriteCollision w.backgroundCollision

theorem next_line (s : VideoStandard) (n : Nat) : (n + 1) % s.linesPerFrame =
    if s.linesPerFrame ≤ n % s.linesPerFrame + 1 then 0 else n % s.linesPerFrame + 1 := by
  by_cases last : s.linesPerFrame ≤ n % s.linesPerFrame + 1
  · rw [if_pos last]
    cases s <;> simp only [VideoStandard.linesPerFrame] at last ⊢ <;> omega
  · rw [if_neg last]
    cases s <;> simp only [VideoStandard.linesPerFrame] at last ⊢ <;> omega

/-- The frame goes round as lines pass. -/
theorem Passes.place (h : Passes memory v n w) (reach : Reachable v) (start : v.rasterLine = 0) :
    w.standard = v.standard ∧ w.registers = v.registers ∧
      w.rasterLine = n % v.standard.linesPerFrame := by
  induction h with
  | start => exact ⟨rfl, rfl, start.trans (Nat.zero_mod _).symm⟩
  | @line n w w' ended before run ih =>
    obtain ⟨standard, registers, line⟩ := ih
    have sound := (before.reachable reach).sound
    obtain ⟨last, next, -⟩ := sound.endOfLine_moves run
    refine ⟨(sound.endOfLine_standard run).trans standard,
      (sound.endOfLine_registers run).trans registers, ?_⟩
    rw [next, last, standard, line, next_line]
    simp only [decide_eq_true_eq]
  | @read n w r _ ih =>
    obtain ⟨_, _, same⟩ := w.read_eq r
    rwa [same]
  | present _ run ih => rwa [present_eq run]

/-! ## Lines that are up to date -/

/-- A line was rendered as the frame that a chip begins comes to it. -/
structure UpToDate (v : Vic) (memory : VideoMemory) (line : Nat) (l : Line) : Prop where
  notes : Notes l (((v.afterLines memory line).beginLine memory).lineSetting line)
  pixels : l.pixels = ((v.afterLines memory line).beginLine memory).picture memory line

theorem UpToDate.withDamage {l : Line} (h : UpToDate v memory line l) (damage : Damage) :
    UpToDate v memory line { l with damage } :=
  ⟨h.notes.withDamage damage, h.pixels⟩

/-- The end of a line leaves it up to date. -/
theorem InStep.draws (h : InStep memory (v.afterLines memory w.rasterLine) w) (hw : Sound w)
    (run : w.endOfLine memory = .ok (ended, w')) :
    ∀ l ∈ w'.line? w.rasterLine, UpToDate v memory w.rasterLine l := by
  intro l hl
  refine ⟨?_, ?_⟩
  · rw [h.beginLine.lineSetting]
    exact hw.endOfLine_notes run l hl
  · rw [h.beginLine.picture]
    exact ((hw.endOfLine_line? run).2 l hl).1

/-- A frame renders one line after the other. -/
theorem Passes.draws (h : Passes memory v n w) (reach : Reachable v) (start : v.rasterLine = 0)
    (within : n ≤ v.standard.linesPerFrame) :
    ∀ above < n, ∀ l ∈ w.line? above, UpToDate v memory above l := by
  induction h with
  | start => exact fun above before => absurd before (Nat.not_lt_zero above)
  | @line n w w' ended before run ih =>
    have sound := (before.reachable reach).sound
    have place : w.rasterLine = n :=
      (before.place reach start).2.2.trans (Nat.mod_eq_of_lt within)
    have inStep := before.inStep reach start
    rw [← place] at inStep
    intro above behind l hl
    rcases Nat.lt_succ_iff_lt_or_eq.mp behind with further | rfl
    · rw [(sound.endOfLine_line? run).1 above (by omega)] at hl
      exact ih (Nat.le_of_succ_le within) above further l hl
    · have drawn := inStep.draws sound run l
      rw [place] at drawn
      exact drawn hl
  | @read n w r _ ih =>
    obtain ⟨_, _, same⟩ := w.read_eq r
    rw [same]
    exact ih within
  | present _ run ih =>
    intro above behind l hl
    rw [line?_present run] at hl
    obtain ⟨old, hold, rfl⟩ := Option.map_eq_some_iff.mp hl
    exact (ih within above behind old hold).withDamage _

/-! ## Further frames -/

/-- A chip is where the frame came that another one begins, and every line it keeps is up to date
and has no damage. -/
structure Idle (v : Vic) (memory : VideoMemory) (w : Vic) : Prop where
  reachable : Reachable w
  standard : w.standard = v.standard
  registers : w.registers = v.registers
  inStep : InStep memory (v.afterLines memory w.rasterLine) w
  lines : ∀ line, ∀ l ∈ w.line? line, UpToDate v memory line l ∧ l.damage = none

/-- A line that is up to date is rendered to the same pixels again, and that is not damage. -/
theorem Idle.renders (h : Idle v memory w) (run : w.endOfLine memory = .ok (ended, w')) :
    ∀ l ∈ w'.line? w.rasterLine, UpToDate v memory w.rasterLine l ∧ l.damage = none := by
  intro l' hl'
  have sound := h.reachable.sound
  have drawn := h.inStep.draws sound run l' hl'
  obtain ⟨l, hl, span, damage, swept⟩ := sound.endOfLine_swept run l' hl'
  obtain ⟨upToDate, clean⟩ := h.lines w.rasterLine l hl
  have fresh : isStale l ((w.beginLine memory).lineSetting w.rasterLine) = false := by
    rw [← h.inStep.beginLine.lineSetting, ← Bool.not_eq_true]
    exact fun stale => (upToDate.notes.isStale_iff _).mp stale rfl
  have hull := swept.damage
  rw [fresh, drawn.pixels.trans upToDate.pixels.symm] at hull
  obtain rfl : none = span := (Damage.IsHull.eq_none hull fun x change => change rfl).symm
  exact ⟨drawn, damage.trans clean⟩

theorem Idle.endOfLine (h : Idle v memory w) (reach : Reachable v) (start : v.rasterLine = 0)
    (run : w.endOfLine memory = .ok (ended, w')) : Idle v memory w' := by
  have sound := h.reachable.sound
  have reach' : Reachable w' := .endOfLine h.reachable run
  have standard := (sound.endOfLine_standard run).trans h.standard
  have registers := (sound.endOfLine_registers run).trans h.registers
  refine ⟨reach', standard, registers, ?_, fun line l hl => ?_⟩
  · obtain ⟨last, next, -⟩ := sound.endOfLine_moves run
    cases ended with
    | true =>
      rw [next]
      exact reach.inStep reach' standard.symm registers.symm start next
    | false =>
      obtain ⟨soundPlain, _, plain⟩ := reach.sound.afterLines memory w.rasterLine
      rw [next]
      exact (h.inStep.endOfLine soundPlain sound plain run).2
  · by_cases own : line = w.rasterLine
    · subst own
      exact h.renders run l hl
    · rw [(sound.endOfLine_line? run).1 line own] at hl
      exact h.lines line l hl

theorem Passes.idle {v₁ : Vic} (h : Passes memory v₁ n w) (idle : Idle v memory v₁)
    (reach : Reachable v) (start : v.rasterLine = 0) : Idle v memory w := by
  induction h with
  | start => exact idle
  | line _ run ih => exact ih.endOfLine reach start run
  | @read n w r _ ih =>
    have reach' := ih.reachable.read r
    obtain ⟨_, _, same⟩ := w.read_eq r
    rw [same] at reach' ⊢
    exact ⟨reach', ih.standard, ih.registers, ih.inStep.unseen w.cache _ _, ih.lines⟩
  | @present n w w' _ _ _ _ status _ run ih =>
    have reach' := ih.reachable.present run
    have lines : ∀ line, ∀ l ∈ w'.line? line, UpToDate v memory line l ∧ l.damage = none := by
      intro line l hl
      rw [line?_present run] at hl
      obtain ⟨old, hold, rfl⟩ := Option.map_eq_some_iff.mp hl
      obtain ⟨upToDate, clean⟩ := ih.lines line old hold
      refine ⟨upToDate.withDamage _, ?_⟩
      show (if status = .presented then none else old.damage) = none
      rw [clean, ite_self]
    have same := present_eq run
    rw [same] at reach' lines ⊢
    exact ⟨reach', ih.standard, ih.registers,
      ih.inStep.unseen _ w.spriteCollision w.backgroundCollision, lines⟩

theorem line_lt_of_kept {l : Line} (kept : w.line? line = some l) :
    line < w.standard.linesPerFrame := by
  obtain ⟨index, place, -⟩ := Option.bind_eq_some_iff.mp kept
  unfold VideoStandard.row? at place
  split at place
  · next visible =>
    refine Nat.lt_of_lt_of_le visible.2 ?_
    cases w.standard <;> decide
  · exact absurd place (by simp)

/-- A frame that was delivered leaves nothing to do. -/
theorem Passes.delivered {c v₁ : Vic} {σ : Type} [FrameSink σ] {sink sink' : σ}
    (frame : Passes memory v v.standard.linesPerFrame c) (reach : Reachable v)
    (start : v.rasterLine = 0) (shown : c.present sink = .ok (.presented, v₁, sink')) :
    Idle v memory v₁ := by
  have passes := frame.present shown
  obtain ⟨standard, registers, line⟩ := passes.place reach start
  rw [Nat.mod_self] at line
  have reach' := passes.reachable reach
  refine ⟨reach', standard, registers, ?_, fun line l hl => ?_⟩
  · rw [line]
    exact reach.inStep reach' standard.symm registers.symm start line
  · have above : line < v.standard.linesPerFrame := standard ▸ line_lt_of_kept hl
    refine ⟨passes.draws reach start (Nat.le_refl _) line above l hl, ?_⟩
    rw [line?_present shown] at hl
    obtain ⟨old, -, rfl⟩ := Option.map_eq_some_iff.mp hl
    rfl

/-- Every line in the cache is that of a raster line. -/
theorem Sound.exists_line? (h : Sound v) {i : Nat} {l : Line} (kept : v.cache.lines[i]? = some l) :
    ∃ line, v.line? line = some l := by
  have inside : i < v.standard.visibleLines :=
    h.cache.size ▸ (Array.getElem?_eq_some_iff.mp kept).1
  have place : v.standard.row? (v.standard.firstVisibleLine + i) = some i := by
    unfold VideoStandard.row?
    rw [if_pos (by omega), Nat.add_sub_cancel_left]
  refine ⟨v.standard.firstVisibleLine + i, ?_⟩
  rw [Vic.line?, place, Option.bind_some, kept]

theorem Idle.dirtyLines (h : Idle v memory w) : w.cache.dirtyLines = .ok [] := by
  have clean : ∀ p ∈ w.cache.lines.toList.zipIdx, p.1.damage = none := by
    rintro ⟨l, i⟩ inside
    have kept : w.cache.lines[i]? = some l := by
      rw [← Array.getElem?_toList]
      exact (List.mk_mem_zipIdx_iff_getElem?).mp inside
    obtain ⟨line, hl⟩ := h.reachable.sound.exists_line? kept
    exact (h.lines line l hl).2
  have none : w.cache.damaged = .ok [] := by
    unfold Cache.damaged
    rw [List.filterMap_eq_nil_iff.mpr fun p inside =>
      congrArg (Option.map fun span => (p.2, span, p.1)) (clean p inside)]
    rfl
  unfold Cache.dirtyLines
  rw [none]
  rfl

/-- Lines that are up to date hold the pixels of the frame. -/
theorem Idle.pixels?_eq {c : Vic} (h : Idle v memory w) (reach : Reachable v)
    (start : v.rasterLine = 0) (frame : Passes memory v v.standard.linesPerFrame c) (line : Nat) :
    w.pixels? line = c.pixels? line := by
  obtain ⟨standard, -, -⟩ := frame.place reach start
  have kept := h.reachable.sound.isSome_line? line
  have kept' := (frame.reachable reach).sound.isSome_line? line
  rw [h.standard, ← standard, ← kept'] at kept
  rw [Vic.pixels?_eq, Vic.pixels?_eq]
  cases hl : w.line? line with
  | none =>
    rw [hl, Option.isSome_none] at kept
    rw [Option.isNone_iff_eq_none.mp (Option.isSome_eq_false_iff.mp kept.symm)]
  | some l =>
    rw [hl, Option.isSome_some] at kept
    obtain ⟨l', hl'⟩ := Option.isSome_iff_exists.mp kept.symm
    have above : line < v.standard.linesPerFrame := standard ▸ line_lt_of_kept hl'
    have drawn := frame.draws reach start (Nat.le_refl _) line above l' hl'
    rw [hl', Option.map_some, Option.map_some, (h.lines line l hl).1.pixels, drawn.pixels]

/-- An idle screen sends nothing. A frame is rendered from its first line on and delivered, and
nothing is written. Then in all that follows no line is dirty, the picture stays, and the raster
goes through the lines and rows of that frame again. -/
theorem idle_frames (h : Reachable v) (start : v.rasterLine = 0) (memory : VideoMemory) :
    (∀ n w, Passes memory v n w → ∃ w', w.endOfLine memory =
      .ok (decide ((n + 1) % v.standard.linesPerFrame = 0), w')) ∧
    ∀ c, Passes memory v v.standard.linesPerFrame c →
      ∀ {σ : Type} [FrameSink σ] (sink sink' : σ) (v₁ : Vic),
        c.present sink = .ok (.presented, v₁, sink') →
        ∀ n w, Passes memory v₁ n w → w.cache.dirtyLines = .ok [] ∧
          (∀ line, w.pixels? line = c.pixels? line) ∧
          ∀ u, Passes memory v (n % v.standard.linesPerFrame) u →
            w.rasterLine = u.rasterLine ∧ w.row = u.row ∧ w.displayState = u.displayState := by
  refine ⟨fun n w passes => ?_, fun c frame σ _ sink sink' v₁ shown n w passes => ?_⟩
  · obtain ⟨standard, -, place⟩ := passes.place h start
    obtain ⟨ended, w', run, -⟩ := (passes.reachable h).sound.endOfLine memory
    obtain ⟨last, -⟩ := (passes.reachable h).sound.endOfLine_moves run
    refine ⟨w', ?_⟩
    have around : (n + 1) % v.standard.linesPerFrame = 0 ↔
        v.standard.linesPerFrame ≤ n % v.standard.linesPerFrame + 1 := by
      rw [next_line]
      split
      · next last => exact iff_of_true rfl last
      · next more => exact iff_of_false (Nat.succ_ne_zero _) more
    rw [run, last, standard, place, decide_eq_decide.mpr around]
  · have delivered := frame.delivered h start shown
    have idle := passes.idle delivered h start
    refine ⟨idle.dirtyLines, idle.pixels?_eq h start frame, fun u passes' => ?_⟩
    obtain ⟨-, -, line⟩ := (frame.present shown).place h start
    obtain ⟨-, -, place⟩ := passes.place delivered.reachable (line.trans (Nat.mod_self _))
    have again := idle.inStep
    rw [place, delivered.standard] at again
    have same := again.symm.trans (passes'.inStep h start)
    exact ⟨same.rasterLine, same.row, same.displayState⟩

/-- A screen of text with all sprites switched on, and a sink that keeps nothing. Two frames later
it is at the first line again and nothing is dirty. -/
theorem idle_frames_sprites :
    let v := ((new .pal).write 0x11 0x1B).write 0x15 0xFF
    v.rasterLine = 0 ∧ ∃ c v₁ w, Passes darkMemory v 312 c ∧
      c.present NullSink.mk = .ok (.presented, v₁, .mk) ∧ Passes darkMemory v₁ 624 w ∧
      w.cache.dirtyLines = .ok [] ∧ w.rasterLine = 0 := by
  intro v
  have reach : Reachable v := .write _ _ (.write _ _ (.new .pal))
  have start : v.rasterLine = 0 := rfl
  have frame := reach.sound.passes darkMemory 312
  have shown : (v.afterLines darkMemory 312).present NullSink.mk = .ok (.presented, _, .mk) := rfl
  have later := ((frame.present shown).reachable reach).sound.passes darkMemory 624
  obtain ⟨clean, -, place⟩ :=
    (idle_frames reach start darkMemory).2 _ frame _ _ _ shown 624 _ later
  have round : 624 % v.standard.linesPerFrame = 0 := by
    show 624 % VideoStandard.pal.linesPerFrame = 0
    decide
  rw [round] at place
  exact ⟨start, _, _, _, frame, shown, later, clean, (place v .start).1.trans start⟩

end C64.Vic
