import C64.Proofs.Board.Words
import C64.Proofs.Machine.Frames
import C64.Proofs.Machine.Reachable

/-!
# No run faults

A machine without a real-time clock is built, run by the instruction and by the frame, reset,
configured anew and handled by its host, in any order. Nothing of that faults, and in a run of less
than `2 ^ 60` cycles no count leaves its word at any moment (`never_faults`).

The operations are taken apart into what happens between two actions of the processor (`Operated`).
Such a part moves no more than a constant of what is counted, and every action of the processor
takes cycles: so what grows stays within a multiple of the cycles that the processor has counted
(`Board.Tallied`), also when a change of the configuration has replaced the board.
-/

namespace C64

/-! ## What the cycles pay for -/

namespace Board

open Clock

variable {standard : VideoStandard} {cia : Cia.Config} {b b' : Board} {spare total t n : Nat}

/-- The growing counts of a board, against the cycles of the processor. Some alarms may have been
set that no cycle has paid for yet. -/
structure Tallied (spare total : Nat) (b : Board) : Prop where
  elapsed_le : b.clock.elapsed ≤ total
  frame_le : b.devices.vic.frame ≤ total
  /-- An action sets at most eleven alarms a cycle; the twelfth pays for the spare ones. -/
  numbered : b.clock.nextOrder ≤ 12 * total + spare
  /-- Between two rebases the counter climbs nearly to its top. -/
  rebased : b.clock.rebases * (Cycle.clockMax - Cpu.mostCycles) ≤ b.clock.base

/-- What takes no time may set alarms. -/
theorem Tallied.congr (h : b.Tallied spare total) {due : Option Nat} {line : Nat} {complete : Bool}
    (stands : b'.stand =
      { b.stand with rasterDue := due, rasterLine := line, frameComplete := complete })
    {more : Nat} (numbered : b'.clock.nextOrder ≤ b.clock.nextOrder + more) :
    b'.Tallied (spare + more) total := by
  simp only [stand, Stand.mk.injEq] at stands
  obtain ⟨now, base, rebases, -, -, -, frame, -⟩ := stands
  have most := h.numbered
  refine ⟨?_, frame ▸ h.frame_le, by omega, rebases ▸ base ▸ h.rebased⟩
  unfold Clock.elapsed
  rw [now, base]
  exact h.elapsed_le

/-- An action of the processor pays for what it and the alarms behind it count. -/
theorem Tallied.later (h : b.Tallied spare total) (later : Later standard cia t n b b')
    (one_le : 1 ≤ n) (short : n ≤ Cpu.mostCycles) (paid : spare ≤ n) :
    b'.Tallied 0 (total + n) := by
  have age := later.elapsed
  have before := h.elapsed_le
  refine ⟨by omega, ?_, ?_, ?_⟩
  · have frame := h.frame_le
    cases later.passes with
    | within _ _ same _ => omega
    | ended _ _ next _ => omega
  · have numbered := h.numbered
    have given : b'.clock.nextOrder ≤ b.clock.nextOrder + 11 * n := later.counted.numbered
    omega
  · have rebased := h.rebased
    rcases later.counted.rebased with ⟨base, rebases⟩ | ⟨base, rebases, high⟩
    · rwa [base, rebases]
    · rw [base, rebases, Nat.succ_mul]
      omega

/-- Short of `2 ^ 60` cycles there is room for another action, and for one more. -/
theorem Tallied.countsFit (h : b.Tallied spare total) (few : total < 2 ^ 60 + 16)
    (small : spare ≤ 3) : b.CountsFit := by
  obtain ⟨elapsed_le, frame_le, numbered, rebased⟩ := h
  refine ⟨⟨by omega, by omega, ?_⟩, by omega⟩
  have climb : Cycle.clockMax - Cpu.mostCycles = 4278190072 := rfl
  have age : b.clock.elapsed = b.clock.base + b.clock.now := rfl
  rw [climb] at rebased
  omega

/-! ### Watched actions -/

/-- On a watched board an action fits all the time. -/
theorem Live.step_watched (h : b.Live standard cia) (ends : b.FrameEndsIn t)
    (tallied : b.Tallied 0 total) (few : total < 2 ^ 60) (cpu : Cpu) :
    Succeeds (fun out => out.2.2.fits) (cpu.step b.watch) := by
  have counts := tallied.countsFit (by omega) (Nat.zero_le 3)
  refine (Cpu.step_spends (Q := fun _ w => w.fits) (accessed_sustains counts) (h.accessed counts)
    ?_).mono fun _ out => out.2.2.2
  rintro n writes ⟨b₁, fits⟩ one_le le_most access ⟨live, stands, numbered, known⟩
  have : n ≤ 8 := le_most
  obtain ⟨b', hrun, later⟩ := live.later ends stands (by omega) le_most
  have counts' := (tallied.later later one_le le_most (Nat.zero_le n)).countsFit (by omega)
    (Nat.zero_le 3)
  have := counts.clock.nextOrder
  have := tallied.numbered
  exact live.tick_watched hrun counts' (known (by omega))

theorem Live.reset_watched (h : b.Live standard cia) (ends : b.FrameEndsIn t)
    (tallied : b.Tallied spare total) (small : spare ≤ 3) (few : total < 2 ^ 60) (cpu : Cpu) :
    Succeeds (fun out => out.2.fits) (cpu.reset b.watch) := by
  have counts := tallied.countsFit (by omega) small
  refine (Cpu.reset_spends (Q := fun _ w => w.fits) (accessed_sustains counts) (h.accessed counts)
    ?_).mono fun _ out => out.2
  rintro ⟨b₁, fits⟩ ⟨live, stands, numbered, known⟩
  obtain ⟨b', hrun, later⟩ :=
    live.later (n := Cpu.interruptCycles) ends stands (by omega) (by decide)
  have counts' := (tallied.later later (by decide) (by decide)
    (Nat.le_trans small (by decide))).countsFit (by unfold Cpu.interruptCycles; omega)
    (Nat.zero_le 3)
  exact live.tick_watched hrun counts' (known counts.clock.nextOrder)

end Board

namespace Machine

open Raster

/-- What the processor does next. -/
inductive Phase where
  /-- It comes out of a reset. -/
  | resetting
  /-- It executes an instruction, enters an interrupt or stands still. -/
  | running

variable {config config' : Config} {images : RomImages} {phase : Phase} {m m' : Machine} {t n : Nat}

/-! ## Between two actions of the processor -/

/-- The machines between two actions of the processor. A host that fits no real-time clock operates
them as it likes. A step takes the input, may reset the board and executes; a run of a frame asks
for the lines anew, steps, and has its damage delivered or is stopped. -/
inductive Operated (config : Config) (images : RomImages) : Phase → Machine → Prop
  | built {board : Board} {errors reported : List ConfigError} :
      buildBoard (.new (Roms.ofImages images).1) config = .ok (board, errors) →
      Operated config images .resetting
        { cpu := .new config.cpu, board, config, errors := reported, input := {}
          stopRequested := false, resetRequested := false }
  | resetCpu {m m' : Machine} : Operated config images .resetting m → m.resetCpu = .ok m' →
      Operated config images .running m'
  | execute {m : Machine} {n : Nat} {cpu : Cpu} {board : Board} :
      Operated config images .running m → m.cpu.step m.board = .ok (n, cpu, board) →
      Operated config images .running { m with cpu, board }
  | hosted {m m' : Machine} : Operated config images .running m → m.Hosted m' →
      Operated config images .running m'
  | applyInput {m : Machine} : Operated config images .running m →
      Operated config images .running m.applyInput
  | requestReset {m : Machine} : Operated config images .running m →
      Operated config images .running m.requestReset
  | resetBoard {m : Machine} {board : Board} : Operated config images .running m →
      m.board.reset = .ok board →
      Operated config images .resetting { m with board, resetRequested := false }
  | requestStop {m : Machine} : Operated config images .running m →
      Operated config images .running m.requestStop
  | stop {m : Machine} : Operated config images .running m →
      Operated config images .running { m with stopRequested := false }
  | refresh {m : Machine} : Operated config images .running m →
      Operated config images .running m.refresh
  | takeFrame {m : Machine} : Operated config images .running m →
      Operated config images .running m.takeFrame
  | deliver {m : Machine} : Operated config images .running m →
      Operated config images .running m.deliver
  | refit {m : Machine} {config' : Config} {board : Board} {errors : List ConfigError} :
      Operated config images .running m → config'.rtc = none →
      config'.standard = m.config.standard → config'.todHz = m.config.todHz →
      m.refit config' = .ok (board, errors) →
      Operated config images .running
        { m with cpu := { m.cpu with config := config'.cpu }, board, config := config', errors }
  | rebuild {m : Machine} {config' : Config} {board : Board} {errors : List ConfigError} :
      Operated config images .running m → config'.rtc = none →
      buildBoard m.board.devices.memory.reset config' = .ok (board, errors) →
      Operated config images .resetting
        { m with cpu := { m.cpu with config := config'.cpu }, board, config := config', errors }

/-! ## What is kept -/

/-- The alarms that no cycle has paid for yet are those of a reset. -/
def Phase.spare : Phase → Nat
  | resetting => 3
  | running => 0

/-- What is known of an operated machine. -/
structure Kept (phase : Phase) (m : Machine) : Prop where
  noClock : m.config.rtc = none
  going : ∃ t, m.Going t
  tallied : m.board.Tallied phase.spare m.cpu.totalCycles

/-- A board is built with its frame before it, and with the alarms of a reset. -/
theorem buildBoard_tallied (memory : Memory) (noClock : config.rtc = none) (total : Nat) :
    Succeeds (fun out => out.1.Live config.standard config.cia.1 ∧
      out.1.FrameEndsIn config.standard.cyclesPerFrame ∧ out.1.Tallied 3 total)
      (buildBoard memory config) := by
  refine (buildBoard_live memory (by simp [noClock])).mono ?_
  rintro ⟨board, errors⟩ ⟨live, stands, numbered⟩
  refine ⟨live, frameEndsIn_start stands, ?_⟩
  have numbered : board.clock.nextOrder = 3 := numbered noClock
  simp only [Board.stand, startStand, Board.Stand.mk.injEq] at stands
  obtain ⟨now, base, rebases, -, -, -, frame, -⟩ := stands
  have age : board.clock.elapsed = 0 := by rw [Clock.elapsed, now, base]
  exact ⟨age ▸ Nat.zero_le total, frame ▸ Nat.zero_le total,
    Nat.le_trans (Nat.le_of_eq numbered) (Nat.le_add_left 3 _), by simp [rebases]⟩

/-- A reset leaves a whole frame, and three alarms that no cycle has paid for. -/
theorem Going.resetBoard (h : m.Going t) (tallied : m.board.Tallied 0 n) :
    Succeeds (fun board => board.Live m.config.standard m.config.cia.1 ∧
      board.FrameEndsIn m.config.standard.cyclesPerFrame ∧ board.Tallied 3 n ∧
      board.clock.elapsed = m.board.clock.elapsed ∧ board.devices.frameComplete = false)
      m.board.reset := by
  refine h.live.reset.mono ?_
  rintro board ⟨live, stands, numbered⟩
  have tallied' := tallied.congr stands (Nat.le_of_eq numbered)
  simp only [Board.stand, Board.Stand.mk.injEq] at stands
  obtain ⟨now, base, -, waits, -, line, -, complete⟩ := stands
  have made := live.fit.made.vic
  refine ⟨live, ?_, tallied', ?_, complete⟩
  · have first := Board.frameEndsIn_firstLine line (by rw [waits, now, made])
    rwa [made] at first
  · unfold Clock.elapsed
    rw [now, base]

/-- Chips that are fitted or taken off in place cost no time and set no alarm. -/
theorem Going.refit (h : m.Going t) (same : config'.rtc = m.config.rtc) :
    Succeeds (fun out => out.1.Live m.config.standard m.config.cia.1 ∧
      out.1.stand = m.board.stand ∧ out.1.clock.nextOrder = m.board.clock.nextOrder)
      (m.refit config') := by
  unfold Machine.refit
  rw [if_pos same]
  simp only [pure_bind]
  refine .ok ?_
  split
  · refine ⟨h.live.attachVia, m.board.stand_attachVia, ?_⟩
    unfold Board.attachVia
    split <;> rfl
  · refine ⟨h.live.detachVia, m.board.stand_detachVia, ?_⟩
    unfold Board.detachVia
    split <;> rfl

/-- What takes no time and sets no alarm keeps the counts. -/
theorem Kept.still (h : m.Kept phase) (noClock : m'.config.rtc = none) (going : ∃ t, m'.Going t)
    (total : m'.cpu.totalCycles = m.cpu.totalCycles) {complete : Bool}
    (stands : m'.board.stand = { m.board.stand with frameComplete := complete })
    (numbered : m'.board.clock.nextOrder = m.board.clock.nextOrder) : m'.Kept phase := by
  refine ⟨noClock, going, ?_⟩
  rw [total]
  have none : m'.board.clock.nextOrder ≤ m.board.clock.nextOrder + 0 := Nat.le_of_eq numbered
  exact h.tallied.congr stands none

/-- An action of the processor pays for what was set before it. -/
theorem Kept.stepped (h : m.Kept phase) (step : m.Stepped t n m') (paid : phase.spare ≤ n) :
    m'.Kept .running := by
  refine ⟨step.config ▸ h.noClock, ?_, ?_⟩
  · rcases step.going with ⟨-, going, -⟩ | ⟨-, going, -⟩
    · exact ⟨_, going⟩
    · exact ⟨_, going⟩
  · rw [step.totalCycles]
    exact h.tallied.later step.board step.one_le step.le_most paid

theorem Kept.hosted (h : m.Kept .running) (by' : m.Hosted m') : m'.Kept .running := by
  obtain ⟨t, going⟩ := h.going
  have going' : ∃ t, m'.Going t := ⟨t, going.hosted by'⟩
  cases by' with
  | send e => exact h.still h.noClock going' rfl rfl rfl
  | memory memory => exact h.still h.noClock going' rfl rfl rfl
  | cpu same => exact h.still h.noClock going' same rfl rfl

theorem Operated.kept (noClock : config.rtc = none) (h : Operated config images phase m) :
    m.Kept phase := by
  induction h with
  | built hbuild =>
    obtain ⟨live, ends, tallied⟩ := (buildBoard_tallied _ noClock 0).of_ok hbuild
    exact ⟨noClock, ⟨_, live, ends⟩, tallied⟩
  | resetCpu _ hreset ih =>
    obtain ⟨t, going⟩ := ih.going
    exact ih.stepped (going.resetCpu.of_ok hreset) (by decide)
  | execute _ hstep ih =>
    obtain ⟨t, going⟩ := ih.going
    exact ih.stepped (going.execute.of_ok hstep) (Nat.zero_le _)
  | hosted _ by' ih => exact ih.hosted by'
  | @applyInput m _ ih =>
    obtain ⟨t, going⟩ := ih.going
    obtain ⟨keyboard, joystick1, joystick2, heq⟩ := m.applyInput_eq
    refine ih.still ?_ ⟨t, going.applyInput⟩ (by simp) m.stand_applyInput (by rw [applyInput_clock])
    rw [heq]
    exact ih.noClock
  | requestReset _ ih => exact ⟨ih.noClock, ih.going.imp fun _ h => ⟨h.live, h.ends⟩, ih.tallied⟩
  | resetBoard _ hreset ih =>
    obtain ⟨t, going⟩ := ih.going
    obtain ⟨live, ends, tallied, -⟩ := (going.resetBoard ih.tallied).of_ok hreset
    exact ⟨ih.noClock, ⟨_, live, ends⟩, tallied⟩
  | requestStop _ ih => exact ⟨ih.noClock, ih.going.imp fun _ h => ⟨h.live, h.ends⟩, ih.tallied⟩
  | stop _ ih => exact ⟨ih.noClock, ih.going.imp fun _ h => ⟨h.live, h.ends⟩, ih.tallied⟩
  | refresh _ ih =>
    exact ih.still ih.noClock (ih.going.imp fun _ h => h.refresh) rfl rfl rfl
  | takeFrame _ ih =>
    exact ih.still ih.noClock (ih.going.imp fun _ h => h.takeFrame) rfl rfl rfl
  | deliver _ ih =>
    exact ih.still ih.noClock (ih.going.imp fun _ h => h.deliver) rfl rfl rfl
  | refit _ none standard todHz hrefit ih =>
    obtain ⟨t, going⟩ := ih.going
    obtain ⟨live, stands, numbered⟩ := (going.refit (none.trans ih.noClock.symm)).of_ok hrefit
    refine ih.still none ⟨t, ?_, going.ends.of_stand stands⟩ rfl stands numbered
    rwa [← standard, ← cia_eq standard todHz] at live
  | rebuild _ none hbuild ih =>
    obtain ⟨live, ends, tallied⟩ := (buildBoard_tallied _ none _).of_ok hbuild
    exact ⟨none, ⟨_, live, ends⟩, tallied⟩

/-! ## The operations -/

section Operations

variable (noClock : config.rtc = none)
include noClock

theorem new_operated (images : RomImages) :
    Succeeds (Operated config images .running) (new config images) := by
  unfold Machine.new
  simp only []
  obtain ⟨⟨board, errors⟩, hbuild, -⟩ :=
    buildBoard_tallied (.new (Roms.ofImages images).1) noClock 0
  rw [hbuild, ok_bind]
  have built : Operated config images .resetting
      { cpu := .new config.cpu, board, config
        errors := (Roms.ofImages images).2.map ConfigError.rom ++ errors
        input := {}, stopRequested := false, resetRequested := false } := .built hbuild
  obtain ⟨t, going⟩ := (built.kept noClock).going
  exact (going.resetCpu.and fun _ hreset => built.resetCpu hreset).mono fun _ h => h.2

/-- Before its instruction a step takes the input and may reset the machine. What is left of the
frame then is no more than it was, or than a frame. -/
theorem Operated.ready (h : Operated config images .running m) (going : m.Going t) :
    Succeeds (fun m₁ => Operated config images .running m₁ ∧ m₁.config = m.config ∧
      m₁.resetRequested = false ∧ m.cycles ≤ m₁.cycles ∧ ∃ t₁, m₁.Going t₁ ∧
        t₁ ≤ if m.resetRequested then m.config.standard.cyclesPerFrame else t) m.ready := by
  have taken := h.applyInput
  have same : m.applyInput.config = m.config := by
    obtain ⟨_, _, _, heq⟩ := m.applyInput_eq
    rw [heq]
  have age : m.applyInput.cycles = m.cycles := by rw [cycles, applyInput_clock, cycles]
  unfold Machine.ready
  cases hreset : m.resetRequested with
  | false =>
    exact .ok ⟨taken, same, by simp [hreset], Nat.le_of_eq age.symm, t, going.applyInput,
      Nat.le_refl t⟩
  | true =>
    obtain ⟨board, hboard, live, ends, -, older, -⟩ :=
      going.applyInput.resetBoard (taken.kept noClock).tallied
    have resetting := taken.resetBoard hboard
    have going₁ : Going m.applyInput.config.standard.cyclesPerFrame
        { m.applyInput with board, resetRequested := false } := ⟨live, ends⟩
    simp only [if_true, Machine.reset]
    rw [hboard, ok_bind]
    refine (going₁.resetCpu.and fun _ hrun => resetting.resetCpu hrun).mono ?_
    rintro m₁ ⟨step, operated⟩
    have later : m₁.cycles = board.clock.elapsed + Cpu.interruptCycles := step.board.elapsed
    have before : board.clock.elapsed = m.cycles := older.trans age
    refine ⟨operated, step.config.trans same, step.resetRequested, by omega, ?_⟩
    have long : Cpu.interruptCycles < m.applyInput.config.standard.cyclesPerFrame :=
      Nat.lt_of_lt_of_le (by decide) (mostCycles_le_frame _)
    rcases step.going with ⟨-, going', -⟩ | ⟨past, -⟩
    · exact ⟨_, going', by rw [same]; exact Nat.sub_le _ _⟩
    · omega

/-- A step completes the frame or brings its end nearer. -/
theorem Operated.step (h : Operated config images .running m) (going : m.Going t) :
    Succeeds (fun out => Operated config images .running out.2 ∧ out.2.config = m.config ∧
      out.2.resetRequested = false ∧ m.cycles ≤ out.2.cycles ∧
      (out.2.board.devices.frameComplete = true ∨ ∃ t', out.2.Going t' ∧
        t' < if m.resetRequested then m.config.standard.cyclesPerFrame else t)) m.step := by
  rw [step_eq]
  refine (h.ready noClock going).bind ?_
  rintro m₁ ⟨operated, same, noReset, older, t₁, going₁, less⟩
  refine (going₁.execute.and fun _ hrun => operated.execute hrun).bind ?_
  rintro ⟨n, cpu, board⟩ ⟨step, operated'⟩
  have later : Machine.cycles { m₁ with cpu, board } = m₁.cycles + n := step.board.elapsed
  refine .ok ⟨operated', same, noReset, by simp only []; omega, ?_⟩
  rcases step.going with ⟨soon, going', -, -⟩ | ⟨-, -, -, done⟩
  · have one_le := step.one_le
    exact .inr ⟨_, going', by simp only []; omega⟩
  · exact .inl done

/-- A machine within a run of a frame. So much is left of the frame, or of the one that a reset will
start. -/
structure Underway (config : Config) (images : RomImages) (start : Machine) (left : Nat)
    (m : Machine) : Prop where
  operated : Operated config images .running m
  config_eq : m.config = start.config
  older : start.cycles ≤ m.cycles
  going : ∃ t, m.Going t ∧
    left = if m.resetRequested then start.config.standard.cyclesPerFrame else t

theorem Underway.step {start : Machine} {left : Nat} (h : Underway config images start left m) :
    Succeeds (fun out => (out.2.board.devices.frameComplete = true ∧
        Operated config images .running out.2 ∧ start.cycles ≤ out.2.cycles) ∨
      (out.2.board.devices.frameComplete = false ∧
        ∃ left', left' < left ∧ Underway config images start left' out.2)) m.step := by
  obtain ⟨operated, config_eq, older, t, going, rfl⟩ := h
  refine (operated.step noClock going).mono ?_
  rintro ⟨n, m'⟩ ⟨operated', same, noReset, older', left⟩
  have older : start.cycles ≤ m'.cycles := Nat.le_trans older older'
  rw [config_eq] at left
  cases hdone : m'.board.devices.frameComplete with
  | true => exact .inl ⟨rfl, operated', older⟩
  | false =>
    rcases left with done | ⟨t', going', less⟩
    · exact absurd (hdone.symm.trans done) Bool.false_ne_true
    · refine .inr ⟨rfl, t', less, operated', same.trans config_eq, older, t', going', ?_⟩
      have noReset : m'.resetRequested = false := noReset
      rw [noReset, if_neg Bool.false_ne_true]

/-- A run of a frame ends, and no cycle is taken back. -/
theorem Operated.runFrame (h : Operated config images .running m) {σ : Type} [FrameSink σ]
    (takes : Takes σ) (sink : σ) :
    Succeeds (fun out => Operated config images .running out.2.1 ∧ m.cycles ≤ out.2.1.cycles)
      (m.runFrame sink) := by
  obtain ⟨t, going⟩ := (h.kept noClock).going
  have most := going.ends.le
  rw [going.live.fit.made.vic] at most
  have run : ∀ m₁, m₁ = m ∨ m₁ = m.refresh →
      Succeeds (fun out => Operated config images .running out.2 ∧ m.cycles ≤ out.2.cycles)
        (m₁.stepUntilFrame (2 * m.config.standard.cyclesPerFrame)) := by
    intro m₁ asked
    have underway : Underway config images m
        (if m.resetRequested then m.config.standard.cyclesPerFrame else t) m₁ := by
      rcases asked with rfl | rfl
      · exact ⟨h, rfl, Nat.le_refl _, t, going, rfl⟩
      · exact ⟨h.refresh, rfl, Nat.le_refl _, t, going.refresh, rfl⟩
    have enough : (if m.resetRequested then m.config.standard.cyclesPerFrame else t) <
        2 * m.config.standard.cyclesPerFrame := by
      have pos := going.ends.pos
      split <;> omega
    refine (stepUntilFrame_succeeds
      (J := fun m' => Operated config images .running m' ∧ m.cycles ≤ m'.cycles)
      (fun _ _ underway _ => underway.step noClock) underway enough).mono ?_
    rintro ⟨complete, _⟩ (⟨-, m', ⟨operated, older⟩, rfl⟩ | ⟨-, _, m', underway, -, rfl⟩)
    · exact ⟨operated.takeFrame, older⟩
    · exact ⟨underway.operated.stop, underway.older⟩
  refine (runFrame_succeeds takes sink going run ?_).mono ?_
  · rintro out ⟨operated, -⟩
    exact (operated.kept noClock).going
  · rintro ⟨report, m', sink'⟩ ⟨complete, m₂, ⟨operated, older⟩, delivered, -⟩
    rcases delivered with rfl | rfl
    · exact ⟨operated, older⟩
    · exact ⟨operated.deliver, older⟩

theorem Operated.reconfigure (h : Operated config images .running m) (none : config'.rtc = none) :
    Succeeds (Operated config images .running) (m.reconfigure config') := by
  obtain ⟨noClock', ⟨t, going⟩, -⟩ := h.kept noClock
  unfold Machine.reconfigure
  by_cases change : config'.standard ≠ m.config.standard ∨ config'.todHz ≠ m.config.todHz
  · simp only [if_pos change]
    obtain ⟨⟨board, errors⟩, hbuild, -⟩ :=
      buildBoard_tallied m.board.devices.memory.reset none 0
    rw [hbuild, ok_bind]
    have rebuilt := h.rebuild none hbuild
    obtain ⟨t', going'⟩ := (rebuilt.kept noClock).going
    exact (going'.resetCpu.and fun _ hreset => rebuilt.resetCpu hreset).mono fun _ h => h.2
  · simp only [if_neg change]
    obtain ⟨standard, todHz⟩ := not_or.mp change
    obtain ⟨⟨board, errors⟩, hrefit, -⟩ := going.refit (none.trans noClock'.symm)
    rw [hrefit, ok_bind]
    exact .ok (h.refit none (not_not.mp standard) (not_not.mp todHz) hrefit)

end Operations

/-! ## Every run -/

/-- The next action of the processor comes out well, watched or not, and everything fits all the
time. -/
def Fits (m : Machine) : Phase → Prop
  | .resetting => ∃ cpu cpu' w, m.cpu.reset m.board = .ok (cpu, w.board) ∧
      m.cpu.reset m.board.watch = .ok (cpu', w) ∧ w.fits ∧ cpu.totalCycles < 0x10000000000000000
  | .running => ∃ n cpu cpu' w, m.cpu.step m.board = .ok (n, cpu, w.board) ∧
      m.cpu.step m.board.watch = .ok (n, cpu', w) ∧ w.fits ∧ cpu.totalCycles < 0x10000000000000000

theorem Kept.fits (h : m.Kept phase) (few : m.cpu.totalCycles < 2 ^ 60) : m.Fits phase := by
  obtain ⟨-, ⟨t, going⟩, tallied⟩ := h
  have along : m.cpu.Agree m.cpu := ⟨rfl, rfl, rfl, rfl, rfl, rfl⟩
  cases phase with
  | resetting =>
    obtain ⟨⟨cpu', w⟩, hwatch, fits⟩ :=
      going.live.reset_watched going.ends tallied (Nat.le_refl 3) few m.cpu
    obtain ⟨⟨cpu, board⟩, hrun, -, rfl⟩ :=
      (Cpu.reset_inStep Board.watched_simulates rfl rfl).of_ok hwatch
    have total := ((going.live.cpu_reset going.ends m.cpu).of_ok hrun).1
    refine ⟨cpu, cpu', w, hrun, hwatch, fits, ?_⟩
    rw [total]
    unfold Cpu.interruptCycles
    omega
  | running =>
    obtain ⟨⟨n, cpu', w⟩, hwatch, fits⟩ :=
      going.live.step_watched going.ends tallied few m.cpu
    obtain ⟨⟨_, cpu, board⟩, hrun, rfl, -, rfl⟩ :=
      (along.step Board.watched_simulates rfl).of_ok hwatch
    have step := going.execute.of_ok hrun
    refine ⟨n, cpu, cpu', w, hrun, hwatch, fits, ?_⟩
    have total : cpu.totalCycles = m.cpu.totalCycles + n := step.totalCycles
    have short : n ≤ 8 := step.le_most
    omega

/-- A machine without a real-time clock is built, whatever else is chosen. However it was operated
since, a step succeeds, and so do a run of a frame, as long as the sink takes it, and a change of
the configuration; the host's other operations cannot fail. Every action of the processor on the way
fits its words at every moment, as long as it has counted less than `2 ^ 60` cycles. -/
theorem never_faults (config : Config) (images : RomImages) (noClock : config.rtc = none) :
    (∃ m, new config images = .ok m ∧ Operated config images .running m) ∧
    (∀ m, Operated config images .running m →
      (∃ n m', m.step = .ok (n, m') ∧ Operated config images .running m') ∧
      (∀ (σ : Type) [FrameSink σ] (sink : σ), Takes σ → ∃ report m' sink',
        m.runFrame sink = .ok (report, m', sink') ∧ Operated config images .running m' ∧
        m.cycles ≤ m'.cycles) ∧
      ∀ config' : Config, config'.rtc = none → ∃ m',
        m.reconfigure config' = .ok m' ∧ Operated config images .running m') ∧
    ∀ phase m, Operated config images phase m → m.cpu.totalCycles < 2 ^ 60 → m.Fits phase := by
  refine ⟨new_operated noClock images, ?_, fun phase m h few => (h.kept noClock).fits few⟩
  intro m h
  obtain ⟨t, going⟩ := (h.kept noClock).going
  refine ⟨?_, ?_, fun config' none => h.reconfigure noClock none⟩
  · obtain ⟨⟨n, m'⟩, hstep, operated, -⟩ := h.step noClock going
    exact ⟨n, m', hstep, operated⟩
  · intro σ _ sink takes
    obtain ⟨⟨report, m', sink'⟩, hrun, operated, older⟩ := h.runFrame noClock takes sink
    exact ⟨report, m', sink', hrun, operated, older⟩

/-- A machine with an interface adapter executes an instruction, is reset, and becomes one of the
other standard; and its first instruction fits. -/
theorem never_faults_rebuilt :
    let config : Config := { via := true }
    config.rtc = none ∧ ∃ m n m₁ n' m₂ m₃, new config {} = .ok m ∧ m.Fits .running ∧
      m.step = .ok (n, m₁) ∧ m₁.requestReset.step = .ok (n', m₂) ∧
      m₂.reconfigure { standard := .ntsc } = .ok m₃ := by
  intro config
  obtain ⟨⟨m, hnew, operated⟩, runs, fits⟩ := never_faults config {} rfl
  have first := ((new_onTime {} (by decide)).of_ok hnew)
  have few : m.cpu.totalCycles < 2 ^ 60 := by
    rw [first.1.counted, first.2.2.1]
    decide
  obtain ⟨⟨n, m₁, hstep, operated₁⟩, -⟩ := runs m operated
  obtain ⟨⟨n', m₂, hreset, operated₂⟩, -⟩ := runs m₁.requestReset operated₁.requestReset
  obtain ⟨m₃, hrebuild, -⟩ := (runs m₂ operated₂).2.2 { standard := .ntsc } rfl
  exact ⟨rfl, m, n, m₁, n', m₂, m₃, hnew, fits .running m operated few, hstep, hreset, hrebuild⟩

end Machine

end C64
