import C64.Proofs.Machine.Frames
import C64.Proofs.Machine.Reachable

/-!
# Whose frame a run presents

The video chip counts the frames it has completed, and the board keeps a flag that one was. A run of
one frame goes by the flag. Only a step raises it, together with the count, and besides the host
that takes the frame, only a reset and the end of such a run lower it. So a run that finds the flag
down, or a reset requested, completes the frame it presents. One that finds the flag up, which only
single steps leave up, presents a frame from before behind its first instruction
(`frame_completed_in_run`).
-/

namespace C64

namespace Board

open Clock

variable {standard : VideoStandard} {cia : Cia.Config} {b b₁ b' : Board} {n : Nat}

/-- So many cycles later, too few for two raster lines to end in them. -/
structure Rolled (b : Board) (n : Nat) (b' : Board) : Prop where
  standard : b'.devices.vic.standard = b.devices.vic.standard
  age : b'.clock.elapsed = b.clock.elapsed + n
  beam : ∃ due due', b.clock.agenda.due? .rasterLine = some due ∧
    b'.clock.agenda.due? .rasterLine = some due' ∧
    (b'.devices.beam due' = b.devices.beam due ∨
      due ≤ b.clock.elapsed + n ∧
        b'.devices.beam due' = (b.devices.beam due).next b.devices.vic.standard)

/-- Time that is no longer than a raster line ends one line at most, whatever else fires. -/
theorem Fit.tick_rolled (h : b.Fit standard cia) (short : n ≤ standard.cyclesPerLine)
    (hrun : b.tick n = .ok b') : b.Rolled n b' := by
  have made := h.made.vic
  have waits : ∃ due, b.clock.agenda.due? .rasterLine = some due := by
    obtain ⟨at', hat⟩ := Option.isSome_iff_exists.mp h.scheduled.owners.rasterLine
    exact ⟨b.clock.base + at', by rw [due?_agenda, hat]; rfl⟩
  obtain ⟨due, hdue⟩ := waits
  have before : b.clock.elapsed < due := h.scheduled.lt_due hdue
  obtain ⟨d, clock⟩ := b
  have before : clock.elapsed < due := before
  obtain ⟨⟨clock', d'⟩, hadvance, hret⟩ := bind_eq_ok.mp hrun
  cases hret
  obtain ⟨⟨fired, fires⟩, age⟩ :=
    (fire_recurring d.bank).advanceWithin (fire_lawful_any d.bank) h.sound.clock hadvance
  obtain ⟨kept, lines, due', hdue', hbeam, last⟩ := fires_beam fires h.sound.devices hdue
  refine ⟨kept, age, due, due', hdue, hdue', ?_⟩
  rw [hbeam]
  match lines, last with
  | 0, _ => exact .inl rfl
  | 1, last => exact .inr ⟨by simpa using last, rfl⟩
  | lines + 2, last =>
    -- Of two lines the second would be due more than a line behind the first, too late.
    have made : d.vic.standard = standard := made
    have past : due + (lines + 1) * standard.cyclesPerLine ≤ clock.elapsed + n := by
      simpa [made] using last
    rw [Nat.succ_mul] at past
    omega

theorem Rolled.beam_eq (h : b.Rolled n b') {due : Nat}
    (hdue : b.clock.agenda.due? .rasterLine = some due) (ahead : b.clock.elapsed + n < due) :
    b'.clock.agenda.due? .rasterLine = some due ∧ b'.devices.beam due = b.devices.beam due := by
  obtain ⟨due₁, due', hdue₁, hdue', same | ⟨past, -⟩⟩ := h.beam
  · obtain rfl : due₁ = due := Option.some.inj (hdue₁.symm.trans hdue)
    obtain rfl : due' = due₁ := congrArg Beam.due same
    exact ⟨hdue', same⟩
  · obtain rfl : due₁ = due := Option.some.inj (hdue₁.symm.trans hdue)
    omega

/-- The frame goes on, or it is complete and counted, and the raster is at the top of the next. -/
theorem Rolled.frame_cases (h : b.Rolled n b') :
    b'.devices.vic.frame = b.devices.vic.frame ∧
        b'.devices.frameComplete = b.devices.frameComplete ∨
      b'.devices.vic.frame = b.devices.vic.frame + 1 ∧ b'.devices.frameComplete = true ∧
        b'.devices.vic.rasterLine = 0 := by
  obtain ⟨due, due', -, -, same | ⟨-, next⟩⟩ := h.beam
  · exact .inl ⟨congrArg Beam.frame same, congrArg Beam.complete same⟩
  · have frame := congrArg Beam.frame next
    have complete := congrArg Beam.complete next
    have line := congrArg Beam.line next
    simp only [Devices.beam, Beam.next] at frame complete line
    by_cases ended : b.devices.vic.standard.linesPerFrame ≤ b.devices.vic.rasterLine + 1
    · exact .inr ⟨by simpa [ended] using frame, by simpa [ended] using complete,
        by simpa [ended] using line⟩
    · exact .inl ⟨by simpa [ended] using frame, by simpa [ended] using complete⟩

/-- The frame goes on, or it is complete and counted. -/
def Completes (b b' : Board) : Prop :=
  b'.devices.vic.frame = b.devices.vic.frame ∧
      b'.devices.frameComplete = b.devices.frameComplete ∨
    b'.devices.vic.frame = b.devices.vic.frame + 1 ∧ b'.devices.frameComplete = true

theorem Rolled.completes (h : b.Rolled n b') : b.Completes b' :=
  h.frame_cases.imp_right fun ⟨frame, complete, _⟩ => ⟨frame, complete⟩

/-- What only time moves counts alone. -/
theorem Rolled.of_stand (h : b₁.Rolled n b') (same : b₁.stand = b.stand) : b.Rolled n b' := by
  obtain ⟨kept, age, due, due', hdue, hdue', moved⟩ := h
  simp only [stand, Stand.mk.injEq] at same
  obtain ⟨now, base, -, raster, standard, line, frame, complete⟩ := same
  have age₁ : b₁.clock.elapsed = b.clock.elapsed := by
    unfold Clock.elapsed
    rw [now, base]
  have beam : b₁.devices.beam due = b.devices.beam due := by
    simp only [Devices.beam, line, frame, complete]
  rw [age₁] at age moved
  rw [due?_agenda, raster, base, ← due?_agenda] at hdue
  rw [beam, standard] at moved
  exact ⟨kept.trans standard, age, due, due', hdue, hdue', moved⟩

theorem short_action (standard : VideoStandard) :
    Cpu.interruptCycles + Cpu.mostCycles < standard.cyclesPerLine := by
  cases standard <;> decide

/-- An instruction, an entry of an interrupt or a cycle of standing still. -/
theorem Fit.cpu_step (h : b.Fit standard cia) {cpu cpu' : Cpu}
    (hrun : cpu.step b = .ok (n, cpu', b')) : n ≤ Cpu.mostCycles ∧ b.Rolled n b' := by
  obtain ⟨-, le_most, writes, between, ⟨fit, stands⟩, htick⟩ :=
    Cpu.step_ran (fit_sustains b) (k := 0) ⟨h, rfl⟩ hrun
  have short := short_action standard
  exact ⟨le_most, (fit.tick_rolled (by omega) htick).of_stand stands⟩

theorem Fit.cpu_reset (h : b.Fit standard cia) {cpu cpu' : Cpu}
    (hrun : cpu.reset b = .ok (cpu', b')) : b.Rolled Cpu.interruptCycles b' := by
  obtain ⟨between, ⟨fit, stands⟩, htick⟩ :=
    Cpu.reset_ran (fit_sustains b) (k := 0) ⟨h, rfl⟩ hrun
  have short := short_action standard
  exact (fit.tick_rolled (by omega) htick).of_stand stands

/-- A reset lowers the flag and starts a line; the frames stay counted. -/
theorem Fit.reset_stand (h : b.Fit standard cia) (hrun : b.reset = .ok b') :
    b'.clock.agenda.due? .rasterLine = some (b'.clock.elapsed + standard.cyclesPerLine) ∧
      b'.devices.vic.frame = b.devices.vic.frame ∧ b'.devices.frameComplete = false := by
  have made := h.made.vic
  obtain ⟨cia1, cia2, clock₁, clock₂, due, clock₃, -, -, h₃, rfl⟩ := reset_ok hrun
  obtain rfl := setAlarmIn_ok h₃
  refine ⟨?_, rfl, rfl⟩
  rw [due?_agenda, due?_setAlarm_self, made]
  exact congrArg some (Nat.add_assoc ..).symm

end Board

namespace Machine

open Raster

variable {m m₁ m' : Machine} {n : Nat}

/-! ## Steps -/

/-- The next run of a frame does not find the flag up. -/
def Fresh (m : Machine) : Prop :=
  m.board.devices.frameComplete = false ∨ m.resetRequested = true

/-- The processor comes out of a reset with the line that the board has started. -/
theorem Sound.reset_beam (h : m.Sound) (hrun : m.reset = .ok m') :
    m'.Sound ∧ m'.resetRequested = false ∧
    m'.frames = m.frames ∧ m'.board.devices.frameComplete = false ∧
    ∃ due, m'.board.clock.agenda.due? .rasterLine = some due ∧
      m'.board.clock.elapsed + Cpu.mostCycles < due := by
  have sound := h.reset hrun
  obtain ⟨board, hreset, hcpu⟩ := bind_eq_ok.mp hrun
  obtain ⟨hdue, frame, down⟩ := h.board.reset_stand hreset
  obtain ⟨⟨cpu, board'⟩, hran, hret⟩ := bind_eq_ok.mp hcpu
  cases hret
  have rolled := (h.board.reset hreset).cpu_reset hran
  have short := Board.short_action m.config.standard
  obtain ⟨hdue', same⟩ := rolled.beam_eq hdue (by omega)
  refine ⟨sound, rfl, (congrArg Board.Beam.frame same).trans frame,
    (congrArg Board.Beam.complete same).trans down, _, hdue', ?_⟩
  show board'.clock.elapsed + _ < _
  rw [rolled.age]
  omega

/-- A step without a reset is an action of the processor, too short for two lines to end in it. -/
theorem Sound.step_rolled (h : m.Sound) (noReset : m.resetRequested = false)
    (hrun : m.step = .ok (n, m')) :
    n ≤ Cpu.mostCycles ∧ m'.resetRequested = false ∧ m.board.Rolled n m'.board := by
  have ready : m.ready = .ok m.applyInput := by simp [Machine.ready, noReset]
  rw [step_eq, ready, ok_bind] at hrun
  obtain ⟨⟨n', cpu, board⟩, hstep, hret⟩ := bind_eq_ok.mp hrun
  cases hret
  obtain ⟨le_most, rolled⟩ := h.applyInput.board.cpu_step hstep
  exact ⟨le_most, (applyInput_resetRequested m).trans noReset, rolled.of_stand m.stand_applyInput⟩

theorem Sound.step_completes (h : m.Sound) (noReset : m.resetRequested = false)
    (hrun : m.step = .ok (n, m')) :
    n ≤ Cpu.mostCycles ∧ m'.cycles = m.cycles + n ∧ m'.resetRequested = false ∧
      m.board.Completes m'.board := by
  obtain ⟨le_most, noReset', rolled⟩ := h.step_rolled noReset hrun
  exact ⟨le_most, rolled.age, noReset', rolled.completes⟩

/-- A step with a reset leaves the flag down. -/
theorem Sound.step_resets (h : m.Sound) (reset : m.resetRequested = true)
    (hrun : m.step = .ok (n, m')) :
    m'.resetRequested = false ∧ m'.frames = m.frames ∧ m'.board.devices.frameComplete = false := by
  have ready : m.ready = m.applyInput.reset := by simp [Machine.ready, reset]
  rw [step_eq, ready] at hrun
  obtain ⟨m₁, hreset, hrun⟩ := bind_eq_ok.mp hrun
  obtain ⟨⟨n', cpu, board⟩, hstep, hret⟩ := bind_eq_ok.mp hrun
  cases hret
  obtain ⟨sound, noReset, frames, down, due, hdue, ahead⟩ := h.applyInput.reset_beam hreset
  obtain ⟨le_most, rolled⟩ := sound.board.cpu_step hstep
  obtain ⟨-, same⟩ := rolled.beam_eq hdue (by omega)
  have input : m.applyInput.frames = m.frames := congrArg Board.Stand.frame m.stand_applyInput
  exact ⟨noReset, (congrArg Board.Beam.frame same).trans (frames.trans input),
    (congrArg Board.Beam.complete same).trans down⟩

/-- A step of a fresh machine leaves the flag down, or raises it with the count. -/
theorem Sound.step_fresh (h : m.Sound) (fresh : m.Fresh) (hrun : m.step = .ok (n, m')) :
    m'.board.devices.frameComplete = false ∧ m'.frames = m.frames ∨
      m'.board.devices.frameComplete = true ∧ m'.frames = m.frames + 1 := by
  cases reset : m.resetRequested with
  | true =>
    obtain ⟨-, frames, down⟩ := h.step_resets reset hrun
    exact .inl ⟨down, frames⟩
  | false =>
    have down : m.board.devices.frameComplete = false := by simpa [Fresh, reset] using fresh
    obtain ⟨-, -, -, ⟨frames, same⟩ | ⟨frames, up⟩⟩ := h.step_completes reset hrun
    · exact .inl ⟨same.trans down, frames⟩
    · exact .inr ⟨up, frames⟩

/-! ## Runs of a frame -/

/-- A run from a fresh machine counts the frame it completes, and no other. -/
theorem Sound.stepUntilFrame_fresh (h : m.Sound) (fresh : m.Fresh) {budget : Nat} {complete : Bool}
    (hrun : m.stepUntilFrame budget = .ok (complete, m')) :
    m'.Fresh ∧ m'.frames = m.frames + complete.toNat := by
  -- The count stays while the flag is down, and goes up by one with it.
  have step {m₁ m₂ : Machine} {n : Nat} (sound : m₁.Sound)
      (before : m₁.Fresh ∧ m₁.frames = m.frames) (hstep : m₁.step = .ok (n, m₂)) :
      m₂.frames = m.frames + m₂.board.devices.frameComplete.toNat := by
    rcases sound.step_fresh before.1 hstep with ⟨down, frames⟩ | ⟨up, frames⟩
    · rw [down, frames, before.2]
      rfl
    · rw [up, frames, before.2]
      rfl
  have again {m₁ : Machine} (frames : m₁.frames = m.frames + m₁.board.devices.frameComplete.toNat)
      (down : m₁.board.devices.frameComplete = false) : m₁.Fresh ∧ m₁.frames = m.frames :=
    ⟨.inl down, by rw [frames, down]; rfl⟩
  rcases h.stepUntilFrame_leads step again ⟨fresh, rfl⟩ hrun with
    ⟨rfl, m₁, before, rfl⟩ | ⟨rfl, m₁, frames, up, rfl⟩
  · exact before
  · exact ⟨.inl rfl, by rw [← up]; exact frames⟩

/-- A run that finds the flag up is over behind its first instruction. -/
theorem Sound.stepUntilFrame_stale (h : m.Sound) (stale : ¬m.Fresh) {budget : Nat}
    (hrun : m.stepUntilFrame budget = .ok (true, m')) :
    ∃ n m₁, m.step = .ok (n, m₁) ∧ n ≤ Cpu.mostCycles ∧ m₁.cycles = m.cycles + n ∧
      m.board.Completes m₁.board ∧ m' = m₁.takeFrame := by
  obtain ⟨up, noReset⟩ : m.board.devices.frameComplete = true ∧ m.resetRequested = false := by
    simpa [Fresh] using stale
  cases budget with
  | zero => exact absurd hrun (by simp [Machine.stepUntilFrame])
  | succ budget =>
    unfold Machine.stepUntilFrame at hrun
    split at hrun
    · exact absurd hrun (by simp)
    · obtain ⟨⟨n, m₁⟩, hstep, hrun⟩ := bind_eq_ok.mp hrun
      obtain ⟨le_most, age, -, completes⟩ := h.step_completes noReset hstep
      -- The flag stays up whether or not the instruction completes another frame.
      have still : m₁.board.devices.frameComplete = true := by
        rcases completes with ⟨-, same⟩ | ⟨-, raised⟩
        · exact same.trans up
        · exact raised
      simp only [still, if_true] at hrun
      cases hrun
      exact ⟨n, m₁, hstep, le_most, age, completes, rfl⟩

/-- The machine that a run of a frame starts from, when a sink may ask for every line. -/
def asked (wanted : Bool) (m : Machine) : Machine := if wanted then m.refresh else m

/-- A run of a frame takes up what the sink asks for, steps, and presents the frame if one is
complete. -/
theorem runFrame_outcome {σ : Type} [FrameSink σ] {sink sink' : σ} {report : FrameReport}
    (hrun : m.runFrame sink = .ok (report, m', sink')) :
    ∃ m₁ budget complete,
      (m.asked (FrameSink.takeRefresh sink).1).stepUntilFrame budget = .ok (complete, m₁) ∧
      report.cycles = m₁.cycles - m.cycles ∧
      (complete = false ∧ report.status = none ∧ m' = m₁ ∧
          sink' = (FrameSink.takeRefresh sink).2 ∨
        complete = true ∧ ∃ status, report.status = some status ∧
          FrameSink.present (FrameSink.takeRefresh sink).2 (⟨m₁.board.devices.vic.frame,
            m₁.board.devices.vic.cache⟩ : Frame Vic.shape) = .ok (status, sink') ∧
          m' = if status = .presented then m₁.deliver else m₁) := by
  have age : (m.asked (FrameSink.takeRefresh sink).1).cycles = m.cycles := by
    unfold asked
    split <;> rfl
  rw [← age]
  obtain ⟨⟨complete, m₁⟩, hframe, hrun⟩ := bind_eq_ok.mp hrun
  obtain ⟨dirty, -, hrun⟩ := bind_eq_ok.mp hrun
  refine ⟨m₁, _, complete, hframe, ?_⟩
  cases complete with
  | false =>
    cases hrun
    exact ⟨rfl, .inl ⟨rfl, rfl, rfl, rfl⟩⟩
  | true =>
    obtain ⟨⟨status, vic, taken⟩, hpresent, hret⟩ := bind_eq_ok.mp hrun
    cases hret
    obtain ⟨⟨status', sink''⟩, hsink, hret⟩ := bind_eq_ok.mp hpresent
    cases hret
    refine ⟨rfl, .inr ⟨rfl, _, rfl, hsink, ?_⟩⟩
    by_cases done : status = .presented
    · simp only [done, if_true]
      rfl
    · simp only [done, if_false]

/-- A run of a frame steps until a frame is complete, and behind that only the damage can be
delivered. -/
theorem runFrame_ok {σ : Type} [FrameSink σ] {sink sink' : σ} {report : FrameReport}
    (hrun : m.runFrame sink = .ok (report, m', sink')) :
    ∃ m₁ budget, (m.asked (FrameSink.takeRefresh sink).1).stepUntilFrame budget =
        .ok (report.status.isSome, m₁) ∧
      (m' = m₁ ∨ m' = m₁.deliver) ∧ report.cycles = m₁.cycles - m.cycles := by
  obtain ⟨m₁, budget, complete, hframe, cycles, ⟨rfl, none, rfl, -⟩ | ⟨rfl, status, some, -, rfl⟩⟩ :=
    runFrame_outcome hrun
  · exact ⟨m', budget, by rw [none]; exact hframe, .inl rfl, cycles⟩
  · refine ⟨m₁, budget, by rw [some]; exact hframe, ?_, cycles⟩
    split
    · exact .inr rfl
    · exact .inl rfl

theorem Sound.asked (h : m.Sound) (wanted : Bool) : (m.asked wanted).Sound := by
  unfold Machine.asked
  split
  · exact h.withVic h.board.sound.devices.vic.invalidate rfl
  · exact h

theorem asked_counts (wanted : Bool) (m : Machine) :
    (m.asked wanted).frames = m.frames ∧ (m.asked wanted).cycles = m.cycles ∧
      ((m.asked wanted).Fresh ↔ m.Fresh) := by
  unfold asked
  split <;> exact ⟨rfl, rfl, .rfl⟩

/-- Behind the steps of a run, neither what is counted nor the flag moves. -/
theorem delivered_counts (h : m' = m ∨ m' = m.deliver) :
    m'.frames = m.frames ∧ (m'.Fresh ↔ m.Fresh) := by
  rcases h with rfl | rfl
  · exact ⟨rfl, .rfl⟩
  · exact ⟨rfl, .rfl⟩

section Runs

variable {σ : Type} [FrameSink σ] {sink sink' : σ} {report : FrameReport}

/-- A run of a frame from a fresh machine presents the one frame that it counted. -/
theorem Sound.runFrame_fresh (h : m.Sound) (fresh : m.Fresh)
    (hrun : m.runFrame sink = .ok (report, m', sink')) :
    m'.Fresh ∧ m'.frames = m.frames + report.status.isSome.toNat := by
  obtain ⟨m₁, budget, hframe, delivered, -⟩ := runFrame_ok hrun
  obtain ⟨frames, -, begins⟩ := asked_counts (FrameSink.takeRefresh sink).1 m
  obtain ⟨frames', ends⟩ := delivered_counts delivered
  rw [ends, frames', ← frames]
  exact (h.asked _).stepUntilFrame_fresh (begins.mpr fresh) hframe

/-- One that finds a frame complete from before presents that, one instruction later. -/
theorem Sound.runFrame_stale (h : m.Sound) (stale : ¬m.Fresh)
    (hrun : m.runFrame sink = .ok (report, m', sink')) (complete : report.status.isSome = true) :
    m'.Fresh ∧ ∃ m₁,
      (m.asked (FrameSink.takeRefresh sink).1).step = .ok (report.cycles, m₁) ∧
      report.cycles ≤ Cpu.mostCycles ∧ m'.frames = m₁.frames ∧
      (m'.frames = m.frames ∨ m'.frames = m.frames + 1) := by
  obtain ⟨m₁, budget, hframe, delivered, cycles⟩ := runFrame_ok hrun
  obtain ⟨frames, age, begins⟩ := asked_counts (FrameSink.takeRefresh sink).1 m
  obtain ⟨frames', ends⟩ := delivered_counts delivered
  rw [complete] at hframe
  obtain ⟨n, m₂, hstep, le_most, age₂, completes, rfl⟩ :=
    (h.asked _).stepUntilFrame_stale (fun fresh => stale (begins.mp fresh)) hframe
  have took : report.cycles = n := by
    have behind : m₂.takeFrame.cycles = m₂.cycles := rfl
    omega
  rw [ends, frames', took, ← frames]
  exact ⟨.inl rfl, m₂, hstep, le_most, rfl, completes.imp And.left And.left⟩

end Runs

/-! ## Machines that are run by frames -/

/-- The machines that are not stepped by hand: built, run by the frame, stopped, reset, configured
anew, with input sent and programs loaded. -/
inductive ByFrames : Machine → Prop
  | new {config : Config} {images : RomImages} {m : Machine} :
      new config images = .ok m → ByFrames m
  | runFrame {m m' : Machine} {σ : Type} [FrameSink σ] {sink sink' : σ} {report : FrameReport} :
      ByFrames m → m.runFrame sink = .ok (report, m', sink') → ByFrames m'
  | requestStop {m : Machine} : ByFrames m → ByFrames m.requestStop
  | requestReset {m : Machine} : ByFrames m → ByFrames m.requestReset
  | reconfigure {m m' : Machine} {config : Config} :
      ByFrames m → m.reconfigure config = .ok m' → ByFrames m'
  | send {m : Machine} (e : InputEvent) : ByFrames m → ByFrames (m.send e)
  | load {m : Machine} (address : UInt16) (bytes : List UInt8) :
      ByFrames m → ByFrames (m.load address bytes)

/-- Whatever the rate of a real-time clock, fitting it moves nothing that only time moves. -/
theorem stand_attachRtc {b b' : Board} {config : Rtc.Config} {error : Option Rtc.ConfigError}
    (hrun : b.attachRtc config = .ok (error, b')) : b'.stand = b.stand := by
  rw [← b.stand_detachRtc]
  obtain ⟨built, hnew, hret⟩ := bind_eq_ok.mp hrun
  cases built with
  | error e => cases hret; rfl
  | ok fitted =>
    obtain ⟨rtc, clock⟩ := fitted
    cases hret
    unfold Rtc.new at hnew
    split at hnew
    · exact absurd hnew (by simp)
    · obtain ⟨⟨due, clock₁⟩, hset, hret⟩ := bind_eq_ok.mp hnew
      cases hret
      obtain rfl := Clock.setAlarmIn_ok hset
      have raster := b.detachRtc.clock.due?_setAlarm_ne
        (b.detachRtc.clock.now + config.cyclesPerSecond)
        (show Board.Event.rtc .tick ≠ .rasterLine by simp)
      simp only [Board.stand, raster]
      rfl

theorem buildBoard_stand {memory : Memory} {config : Config} {board : Board}
    {errors : List ConfigError} (hrun : buildBoard memory config = .ok (board, errors)) :
    board.stand = startStand config.standard := by
  have adapter : ∀ b : Board, (if config.via then b.attachVia else b).stand = b.stand := by
    intro b
    split
    · exact b.stand_attachVia
    · rfl
  unfold buildBoard at hrun
  simp only [] at hrun
  obtain ⟨b₁, hnew, hrun⟩ := bind_eq_ok.mp hrun
  have built := ((Board.new_live _ _ config.cia_paced).of_ok hnew).2.1
  split at hrun
  · obtain ⟨⟨error, b₂⟩, hrtc, hret⟩ := bind_eq_ok.mp hrun
    cases hret
    exact ((adapter b₂).trans (stand_attachRtc hrtc)).trans built
  · cases hrun
    exact (adapter b₁).trans built

theorem refit_stand {config : Config} {board : Board} {errors : List ConfigError}
    (hrun : m.refit config = .ok (board, errors)) : board.stand = m.board.stand := by
  have adapter : ∀ b : Board,
      (if config.via then b.attachVia else b.detachVia).stand = b.stand := by
    intro b
    split
    · exact b.stand_attachVia
    · exact b.stand_detachVia
  unfold Machine.refit at hrun
  simp only [] at hrun
  split at hrun
  · cases hrun; exact adapter _
  · split at hrun
    · obtain ⟨⟨error, b₁⟩, hrtc, hret⟩ := bind_eq_ok.mp hrun
      cases hret
      exact (adapter b₁).trans (stand_attachRtc hrtc)
    · cases hrun
      exact (adapter _).trans m.board.stand_detachRtc

/-- The reset sequence of the processor is over before the first line is. -/
theorem resetCpu_fresh {standard : VideoStandard} {cia : Cia.Config}
    (hrun : m.resetCpu = .ok m') (fit : m.board.Fit standard cia)
    (start : m.board.stand = startStand standard) : m'.Fresh := by
  obtain ⟨⟨cpu, board⟩, hreset, hret⟩ := bind_eq_ok.mp hrun
  cases hret
  simp only [Board.stand, startStand, Board.Stand.mk.injEq] at start
  obtain ⟨now, base, -, raster, -, -, -, complete⟩ := start
  have hdue : m.board.clock.agenda.due? .rasterLine =
      some (m.board.clock.elapsed + standard.cyclesPerLine) := by
    rw [Clock.due?_agenda, raster, Clock.elapsed, now, base]
    rfl
  have short := Board.short_action standard
  obtain ⟨-, same⟩ := (fit.cpu_reset hreset).beam_eq hdue (by omega)
  exact .inl ((congrArg Board.Beam.complete same).trans complete)

theorem Fresh.reconfigure (fresh : m.Fresh) {config : Config}
    (hrun : m.reconfigure config = .ok m') : m'.Fresh := by
  unfold Machine.reconfigure at hrun
  simp only [] at hrun
  by_cases rebuild : config.standard ≠ m.config.standard ∨ config.todHz ≠ m.config.todHz
  · simp only [if_pos rebuild] at hrun
    obtain ⟨⟨board, errors⟩, hboard, hcpu⟩ := bind_eq_ok.mp hrun
    exact resetCpu_fresh hcpu (buildBoard_fit hboard) (buildBoard_stand hboard)
  · simp only [if_neg rebuild] at hrun
    obtain ⟨⟨board, errors⟩, hboard, hret⟩ := bind_eq_ok.mp hrun
    cases hret
    exact fresh.imp_left (congrArg Board.Stand.frameComplete (refit_stand hboard)).trans

theorem ByFrames.sound_fresh (h : m.ByFrames) : m.Sound ∧ m.Fresh := by
  induction h with
  | new hrun =>
    refine ⟨.new hrun, ?_⟩
    obtain ⟨⟨board, errors⟩, hbuild, hcpu⟩ := bind_eq_ok.mp hrun
    exact resetCpu_fresh hcpu (buildBoard_fit hbuild) (buildBoard_stand hbuild)
  | runFrame _ hrun ih => exact ⟨ih.1.runFrame hrun, (ih.1.runFrame_fresh ih.2 hrun).1⟩
  | requestStop _ ih => exact ⟨⟨ih.1.board, ih.1.cpu⟩, ih.2⟩
  | requestReset _ ih => exact ⟨⟨ih.1.board, ih.1.cpu⟩, .inr rfl⟩
  | reconfigure _ hrun ih => exact ⟨ih.1.reconfigure hrun, ih.2.reconfigure hrun⟩
  | send e _ ih => exact ⟨⟨ih.1.board, ih.1.cpu⟩, ih.2⟩
  | load address bytes _ ih =>
    exact ⟨ih.1.withDevices ih.1.board.sound.devices.vic rfl rfl rfl rfl rfl, ih.2⟩

/-! ## Every machine -/

/-- A run of a frame from a fresh machine presents the one frame that it counted, and leaves the
machine fresh; machines that are run by frames alone always are. A run that finds a frame complete
from before presents that one, one instruction later. -/
theorem frame_completed_in_run (h : m.Reachable) {σ : Type} [FrameSink σ] {sink sink' : σ}
    {report : FrameReport} (hrun : m.runFrame sink = .ok (report, m', sink')) :
    (m.ByFrames → m.Fresh) ∧
    (m.Fresh → m'.Fresh ∧ m'.frames = m.frames + report.status.isSome.toNat) ∧
    (¬m.Fresh → report.status.isSome = true → m'.Fresh ∧
      ∃ m₁, (m.asked (FrameSink.takeRefresh sink).1).step = .ok (report.cycles, m₁) ∧
        report.cycles ≤ Cpu.mostCycles ∧ m'.frames = m₁.frames ∧
        (m'.frames = m.frames ∨ m'.frames = m.frames + 1)) :=
  ⟨fun run => run.sound_fresh.2, fun fresh => h.sound.runFrame_fresh fresh hrun,
    fun stale complete => h.sound.runFrame_stale stale hrun complete⟩

theorem frame_completed_in_run_first : ∃ m report m', new {} {} = .ok m ∧ m.Reachable ∧
    m.runFrame ({} : NullSink) = .ok (report, m', {}) ∧ m.Fresh ∧ m'.Fresh ∧
    m'.frames = m.frames + report.status.isSome.toNat ∧ report.status.isSome = true := by
  have slow : ∀ rtc ∈ ({} : Config).rtc, rtc.cyclesPerSecond ≤ Cycle.headroom := by simp
  obtain ⟨m, hnew, -⟩ := new_onTime {} slow
  obtain ⟨⟨report, m', sink⟩, hrun, -, complete⟩ :=
    (Framed.new hnew).atFrame slow |>.runFrame slow takes_nullSink {}
  obtain ⟨fresh, counts, -⟩ := frame_completed_in_run (.new hnew) hrun
  have start := fresh (.new hnew)
  exact ⟨m, report, m', hnew, .new hnew, hrun, start, (counts start).1, (counts start).2, complete⟩

/-! ### A machine stepped past the end of a frame -/

/-- Steps by hand come to the end of the frame, and leave the flag up there. -/
theorem Going.steps_complete {t : Nat} (h : m.Going t) (noReset : m.resetRequested = false)
    (noStop : m.stopRequested = false) (done : List Nat) :
    ∃ k cycles m' t', steps.go done k m = .ok (cycles, m') ∧ m'.Going t' ∧ Cpu.mostCycles < t' ∧
      m'.board.devices.frameComplete = true ∧ m'.resetRequested = false ∧
      m'.stopRequested = false := by
  -- On the cycles that the frame has to go: a step that does not end it leaves fewer.
  induction t using Nat.strongRecOn generalizing m done with
  | ind t ih =>
    obtain ⟨⟨n, m₁⟩, hstep, step⟩ := h.step noReset
    have noReset₁ := step.resetRequested.trans noReset
    have noStop₁ := step.stopRequested.trans noStop
    rcases step.going with ⟨soon, going, -, -⟩ | ⟨past, going, -, up⟩
    · have one_le := step.one_le
      obtain ⟨k, cycles, m', t', hgo, rest⟩ := ih (t - n) (by omega) going noReset₁ noStop₁
        (n :: done)
      refine ⟨k + 1, cycles, m', t', ?_, rest⟩
      unfold steps.go
      rw [hstep]
      exact hgo
    · refine ⟨1, (n :: done).reverse, m₁, _, ?_, going, ?_, up, noReset₁, noStop₁⟩
      · unfold steps.go
        rw [hstep]
        rfl
      · have le_most := step.le_most
        have pos := h.ends.pos
        have long : 2 * Cpu.mostCycles < m.board.devices.vic.standard.cyclesPerFrame := by
          cases m.board.devices.vic.standard <;> decide
        omega

/-- With the flag up and most of a frame to go, a run is over at once and the frame goes on. -/
theorem Going.stepUntilFrame_stale {t budget : Nat} (h : m.Going t) (far : Cpu.mostCycles < t)
    (up : m.board.devices.frameComplete = true) (noReset : m.resetRequested = false)
    (noStop : m.stopRequested = false) :
    Succeeds (fun out => (out.1 = true ∧ out.2.frames = m.frames) ∧ ∃ t', out.2.Going t')
      (m.stepUntilFrame (budget + 1)) := by
  unfold Machine.stepUntilFrame
  simp only [noStop, Bool.false_eq_true, if_false]
  refine (h.step noReset).bind ?_
  rintro ⟨n, m₁⟩ step
  have le_most := step.le_most
  rcases step.going with ⟨-, going, frames, same⟩ | ⟨past, -⟩
  · have still : m₁.board.devices.frameComplete = true := same.trans up
    simp only [still, if_true]
    exact .ok ⟨⟨rfl, frames⟩, _, going.takeFrame⟩
  · omega

/-- A machine that was stepped by hand until its first frame was complete. -/
theorem stepped_past_frame : ∃ k cycles m t, (new {} {} >>= steps k) = .ok (cycles, m) ∧
    m.Going t ∧ Cpu.mostCycles < t ∧ m.board.devices.frameComplete = true ∧
    m.resetRequested = false ∧ m.stopRequested = false := by
  have slow : ∀ rtc ∈ ({} : Config).rtc, rtc.cyclesPerSecond ≤ Cycle.headroom := by simp
  obtain ⟨m₀, hnew, onTime, -⟩ := new_onTime {} slow
  obtain ⟨t₀, going, -⟩ := onTime.going
  obtain ⟨k, cycles, m, t, hgo, rest⟩ :=
    going.steps_complete onTime.resetRequested onTime.stopRequested []
  refine ⟨k, cycles, m, t, ?_, rest⟩
  rw [hnew]
  exact hgo

/-- What no step breaks, steps do not break. -/
theorem steps_keep {P : Machine → Prop}
    (step : ∀ {m m' : Machine} {n : Nat}, P m → m.step = .ok (n, m') → P m') (h : P m) {k : Nat}
    {done cycles : List Nat} (hrun : steps.go done k m = .ok (cycles, m')) : P m' := by
  induction k generalizing m done with
  | zero => cases hrun; exact h
  | succ k ih =>
    obtain ⟨⟨n, m₁⟩, hstep, hrest⟩ := bind_eq_ok.mp hrun
    exact ih (step h hstep) hrest

/-- That machine presents its first frame in a run that completes none. -/
theorem earlier_frame_presented : ∃ k cycles m report m',
    (new {} {} >>= steps k) = .ok (cycles, m) ∧ m.Reachable ∧ ¬m.Fresh ∧
    m.runFrame ({} : NullSink) = .ok (report, m', {}) ∧ report.status.isSome = true ∧
    m'.frames = m.frames := by
  obtain ⟨k, cycles, m, t, hsteps, going, far, up, noReset, noStop⟩ := stepped_past_frame
  have reachable : m.Reachable := by
    obtain ⟨m₀, hnew, hgo⟩ := bind_eq_ok.mp hsteps
    exact steps_keep .step (.new hnew) hgo
  have run : ∀ m₁, m₁ = m ∨ m₁ = m.refresh →
      Succeeds (fun out => (out.1 = true ∧ out.2.frames = m.frames) ∧ ∃ t', out.2.Going t')
        (m₁.stepUntilFrame (2 * m.config.standard.cyclesPerFrame)) := by
    have budget : 2 * m.config.standard.cyclesPerFrame =
        2 * m.config.standard.cyclesPerFrame - 1 + 1 := by
      cases m.config.standard <;> rfl
    rw [budget]
    rintro m₁ (rfl | rfl)
    · exact going.stepUntilFrame_stale far up noReset noStop
    · exact going.refresh.stepUntilFrame_stale far up noReset noStop
  obtain ⟨⟨report, m', sink⟩, hrun, complete, m₂, ⟨⟨rfl, frames⟩, -⟩, delivered, status⟩ :=
    runFrame_succeeds takes_nullSink {} going run fun _ hQ => hQ.2
  refine ⟨k, cycles, m, report, m', hsteps, reachable, ?_, hrun, status, ?_⟩
  · simp [Fresh, up, noReset]
  · exact (delivered_counts delivered).1.trans frames

end Machine

end C64
