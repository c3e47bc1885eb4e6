import C64.Proofs.Board.Making
import C64.Proofs.Machine.Interrupts

/-!
# The machines of a run

`Machine.Reachable` is every machine that can come about: built to any configuration with any ROM
images, run by the instruction and by the frame, reset, configured anew, with input sent and
programs loaded, and with the processor and the board worked by the host in between, for both are
open to it. All of them are `Sound`: the chips are made to the configuration in force, and the
board is one between two operations.
-/

namespace C64.Machine

open Raster

/-- The machines that can come about. -/
inductive Reachable : Machine → Prop where
  | new {config : Config} {images : RomImages} {m : Machine} :
      new config images = .ok m → Reachable m
  | step {m m' : Machine} {n : Nat} : Reachable m → m.step = .ok (n, m') → Reachable m'
  | runFrame {m m' : Machine} {σ : Type} [FrameSink σ] {sink sink' : σ} {report : FrameReport} :
      Reachable m → m.runFrame sink = .ok (report, m', sink') → Reachable m'
  | takeFrame {m : Machine} : Reachable m → Reachable m.takeFrame
  | reconfigure {m m' : Machine} {config : Config} :
      Reachable m → m.reconfigure config = .ok m' → Reachable m'
  | send {m : Machine} (e : InputEvent) : Reachable m → Reachable (m.send e)
  | requestStop {m : Machine} : Reachable m → Reachable m.requestStop
  | requestReset {m : Machine} : Reachable m → Reachable m.requestReset
  | load {m : Machine} (address : UInt16) (bytes : List UInt8) :
      Reachable m → Reachable (m.load address bytes)
  /-- The host may put any state into the processor, but not change its kind. -/
  | cpu {m : Machine} {cpu : Cpu} :
      cpu.config = m.cpu.config → Reachable m → Reachable { m with cpu }
  | board {m : Machine} {board : Board} :
      m.board.Worked board → Reachable m → Reachable { m with board }

/-- What is known of every machine. -/
structure Sound (m : Machine) : Prop where
  board : m.board.Fit m.config.standard m.config.cia.1
  cpu : m.cpu.config = m.config.cpu

variable {m m' : Machine}

/-! ## What keeps a machine sound -/

/-- Of the devices, only the chips with alarms count; of the video chip, that it is sound. -/
theorem Sound.withDevices (h : m.Sound) {d : Board.Devices} (vic : d.vic.Sound)
    (standard : d.vic.standard = m.board.devices.vic.standard)
    (cia1 : d.cia1 = m.board.devices.cia1) (cia2 : d.cia2 = m.board.devices.cia2)
    (via : d.via = m.board.devices.via) (rtc : d.rtc = m.board.devices.rtc) :
    Sound { m with board.devices := d } := by
  have sound := h.board.sound
  refine ⟨⟨⟨sound.clock, ?_⟩, ?_, ?_⟩, h.cpu⟩
  · exact ⟨vic, cia1 ▸ sound.devices.cia1, cia2 ▸ sound.devices.cia2, rtc ▸ sound.devices.rtc⟩
  · exact h.board.scheduled.withDevices
      (h.board.scheduled.owners.congr cia1 cia2 via (congrArg Option.isSome rtc))
  · exact h.board.made.congr standard (congrArg _ cia1) (congrArg _ cia2)

theorem Sound.withVic (h : m.Sound) {vic : Vic} (sound : vic.Sound)
    (standard : vic.standard = m.board.devices.vic.standard) :
    Sound { m with board.devices.vic := vic } :=
  h.withDevices sound standard rfl rfl rfl rfl

theorem Sound.worked (h : m.Sound) {board : Board} (work : m.board.Worked board) :
    Sound { m with board } :=
  ⟨h.board.worked work, h.cpu⟩

theorem Sound.applyInput (h : m.Sound) : m.applyInput.Sound := by
  obtain ⟨keyboard, joystick1, joystick2, heq⟩ := m.applyInput_eq
  rw [heq]
  have kept : Sound { m with
      board.devices := { m.board.devices with keyboard, joystick1, joystick2 } } :=
    h.withDevices h.board.sound.devices.vic rfl rfl rfl rfl rfl
  exact ⟨kept.board, kept.cpu⟩

theorem Sound.resetCpu (h : m.Sound) (hrun : m.resetCpu = .ok m') : m'.Sound := by
  obtain ⟨⟨cpu, board⟩, hreset, hret⟩ := bind_eq_ok.mp hrun
  cases hret
  refine ⟨Cpu.reset_keeps Board.fit_simulates h.board hreset, ?_⟩
  obtain ⟨after, -, hret⟩ := bind_eq_ok.mp hreset
  cases hret
  exact h.cpu

theorem Sound.reset (h : m.Sound) (hrun : m.reset = .ok m') : m'.Sound := by
  obtain ⟨board, hreset, hcpu⟩ := bind_eq_ok.mp hrun
  have reset : Sound { m with board, resetRequested := false } :=
    ⟨h.board.reset hreset, h.cpu⟩
  exact reset.resetCpu hcpu

theorem Sound.step (h : m.Sound) {n : Nat} (hrun : m.step = .ok (n, m')) : m'.Sound := by
  rw [step_eq] at hrun
  obtain ⟨m₁, hready, hrun⟩ := bind_eq_ok.mp hrun
  obtain ⟨⟨n', cpu, board⟩, hstep, hret⟩ := bind_eq_ok.mp hrun
  cases hret
  have ready : m₁.Sound := by
    unfold ready at hready
    split at hready
    · exact h.applyInput.reset hready
    · cases hready; exact h.applyInput
  exact ⟨Cpu.step_keeps Board.fit_simulates ready.board hstep,
    (Cpu.step_config hstep).trans ready.cpu⟩

theorem Sound.takeFrame (h : m.Sound) : m.takeFrame.Sound :=
  h.withDevices h.board.sound.devices.vic rfl rfl rfl rfl rfl

/-- A run of a frame stops before a step, or takes the frame behind one. What a step gives, and what
it needs where the flag is down, carries over the run. -/
theorem stepUntilFrame_leads {P Q : Machine → Prop}
    (step : ∀ {m m' : Machine} {n : Nat}, P m → m.step = .ok (n, m') → Q m')
    (again : ∀ {m : Machine}, Q m → m.board.devices.frameComplete = false → P m) (h : P m)
    {budget : Nat} {complete : Bool} (hrun : m.stepUntilFrame budget = .ok (complete, m')) :
    (complete = false ∧ ∃ m₁, P m₁ ∧ m' = { m₁ with stopRequested := false }) ∨
      (complete = true ∧ ∃ m₁, Q m₁ ∧ m₁.board.devices.frameComplete = true ∧
        m' = m₁.takeFrame) := by
  induction budget generalizing m with
  | zero => exact absurd hrun (by simp [Machine.stepUntilFrame])
  | succ budget ih =>
    unfold Machine.stepUntilFrame at hrun
    split at hrun
    · cases hrun
      exact .inl ⟨rfl, m, h, rfl⟩
    · obtain ⟨⟨n, m₁⟩, hstep, hrun⟩ := bind_eq_ok.mp hrun
      have stepped := step h hstep
      simp only [] at hrun
      split at hrun
      · next up =>
        cases hrun
        exact .inr ⟨rfl, m₁, stepped, up, rfl⟩
      · next down => exact ih (again stepped (Bool.eq_false_iff.mpr down)) hrun

theorem Sound.stepUntilFrame (h : m.Sound) {budget : Nat} {complete : Bool}
    (hrun : m.stepUntilFrame budget = .ok (complete, m')) : m'.Sound := by
  rcases stepUntilFrame_leads (fun sound hstep => sound.step hstep) (fun sound _ => sound) h hrun
    with ⟨-, m₁, sound, rfl⟩ | ⟨-, m₁, sound, -, rfl⟩
  · exact ⟨sound.board, sound.cpu⟩
  · exact sound.takeFrame

theorem Sound.stepUntilFrame_leads {P Q : Machine → Prop} (sound : m.Sound)
    (step : ∀ {m m' : Machine} {n : Nat}, m.Sound → P m → m.step = .ok (n, m') → Q m')
    (again : ∀ {m : Machine}, Q m → m.board.devices.frameComplete = false → P m) (h : P m)
    {budget : Nat} {complete : Bool} (hrun : m.stepUntilFrame budget = .ok (complete, m')) :
    (complete = false ∧ ∃ m₁, P m₁ ∧ m' = { m₁ with stopRequested := false }) ∨
      (complete = true ∧ ∃ m₁, Q m₁ ∧ m₁.board.devices.frameComplete = true ∧
        m' = m₁.takeFrame) := by
  have stepped {m₁ m₂ : Machine} {n : Nat} (before : m₁.Sound ∧ P m₁)
      (hstep : m₁.step = .ok (n, m₂)) : m₂.Sound ∧ Q m₂ :=
    ⟨before.1.step hstep, step before.1 before.2 hstep⟩
  rcases Machine.stepUntilFrame_leads stepped (fun behind down => ⟨behind.1, again behind.2 down⟩)
    ⟨sound, h⟩ hrun with ⟨stopped, m₁, ⟨-, before⟩, rfl⟩ | ⟨taken, m₁, ⟨-, behind⟩, up, rfl⟩
  · exact .inl ⟨stopped, m₁, before, rfl⟩
  · exact .inr ⟨taken, m₁, behind, up, rfl⟩

theorem Sound.runFrame (h : m.Sound) {σ : Type} [FrameSink σ] {sink sink' : σ}
    {report : FrameReport} (hrun : m.runFrame sink = .ok (report, m', sink')) : m'.Sound := by
  unfold Machine.runFrame at hrun
  simp only [] at hrun
  obtain ⟨⟨complete, m₁⟩, hframe, hrun⟩ := bind_eq_ok.mp hrun
  obtain ⟨dirty, -, hrun⟩ := bind_eq_ok.mp hrun
  -- The sink may have asked for every line before, and takes the damage behind.
  have ran : m₁.Sound := by
    refine Sound.stepUntilFrame ?_ hframe
    split
    · exact h.withVic h.board.sound.devices.vic.invalidate rfl
    · exact h
  split at hrun
  · obtain ⟨⟨status, vic, taken⟩, hpresent, hret⟩ := bind_eq_ok.mp hrun
    cases hret
    obtain ⟨⟨status', sink''⟩, -, hret⟩ := bind_eq_ok.mp hpresent
    obtain ⟨rfl, -⟩ := Prod.mk.inj (Prod.mk.inj (Except.ok.inj hret)).2
    have vic := ran.board.sound.devices.vic
    split
    · exact ran.withVic ⟨vic.cache.clearDamage, vic.rasterLine, vic.row, vic.rc⟩ rfl
    · exact ran
  · cases hrun
    exact ran

/-! ## Boards that are built -/

theorem buildBoard_fit {memory : Memory} {config : Config} {b : Board}
    {errors : List ConfigError} (h : buildBoard memory config = .ok (b, errors)) :
    b.Fit config.standard config.cia.1 := by
  unfold buildBoard at h
  simp only [] at h
  obtain ⟨b₁, hnew, h⟩ := bind_eq_ok.mp h
  have built : b₁.Fit config.standard config.cia.1 := .new config.cia_paced hnew
  split at h
  · obtain ⟨⟨error, b₂⟩, hrtc, hret⟩ := bind_eq_ok.mp h
    cases hret
    split
    · exact (built.attachRtc hrtc).attachVia
    · exact built.attachRtc hrtc
  · cases h
    split
    · exact built.attachVia
    · exact built

theorem Sound.new {config : Config} {images : RomImages} (hrun : new config images = .ok m) :
    m.Sound := by
  unfold Machine.new at hrun
  obtain ⟨⟨board, errors⟩, hbuild, hcpu⟩ := bind_eq_ok.mp hrun
  refine Sound.resetCpu ?_ hcpu
  exact ⟨buildBoard_fit hbuild, rfl⟩

/-- What is not rebuilt was made to a standard and a rate that stay. -/
theorem cia_eq {config config' : Config} (standard : config'.standard = config.standard)
    (todHz : config'.todHz = config.todHz) : config'.cia.1 = config.cia.1 := by
  unfold Config.cia
  rw [standard, todHz]

theorem Sound.refit (h : m.Sound) {config : Config} {b : Board} {errors : List ConfigError}
    (hrun : m.refit config = .ok (b, errors)) : b.Fit m.config.standard m.config.cia.1 := by
  have adapter : ∀ {b : Board}, b.Fit m.config.standard m.config.cia.1 →
      Board.Fit m.config.standard m.config.cia.1
        (if config.via then b.attachVia else b.detachVia) := by
    intro b fit
    split
    · exact fit.attachVia
    · exact fit.detachVia
  unfold Machine.refit at hrun
  simp only [] at hrun
  split at hrun
  · cases hrun; exact adapter h.board
  · split at hrun
    · obtain ⟨⟨error, b₁⟩, hrtc, hret⟩ := bind_eq_ok.mp hrun
      cases hret
      exact adapter (h.board.attachRtc hrtc)
    · cases hrun; exact adapter h.board.detachRtc

theorem Sound.reconfigure (h : m.Sound) {config : Config}
    (hrun : m.reconfigure config = .ok m') : m'.Sound := by
  unfold Machine.reconfigure at hrun
  simp only [] at hrun
  by_cases rebuild : config.standard ≠ m.config.standard ∨ config.todHz ≠ m.config.todHz
  · simp only [if_pos rebuild] at hrun
    obtain ⟨⟨board, errors⟩, hboard, hcpu⟩ := bind_eq_ok.mp hrun
    refine Sound.resetCpu ?_ hcpu
    exact ⟨buildBoard_fit hboard, rfl⟩
  · simp only [if_neg rebuild] at hrun
    obtain ⟨⟨board, errors⟩, hboard, hret⟩ := bind_eq_ok.mp hrun
    obtain ⟨standard, todHz⟩ := not_or.mp rebuild
    cases hret
    refine ⟨?_, rfl⟩
    show board.Fit config.standard config.cia.1
    rw [not_not.mp standard, cia_eq (not_not.mp standard) (not_not.mp todHz)]
    exact h.refit hboard

/-! ## Every machine -/

theorem Reachable.sound (h : m.Reachable) : m.Sound := by
  induction h with
  | new hrun => exact .new hrun
  | step _ hrun ih => exact ih.step hrun
  | runFrame _ hrun ih => exact ih.runFrame hrun
  | takeFrame _ ih => exact ih.takeFrame
  | reconfigure _ hrun ih => exact ih.reconfigure hrun
  | send e _ ih => exact ⟨ih.board, ih.cpu⟩
  | requestStop _ ih => exact ⟨ih.board, ih.cpu⟩
  | requestReset _ ih => exact ⟨ih.board, ih.cpu⟩
  | load address bytes _ ih => exact ih.withDevices ih.board.sound.devices.vic rfl rfl rfl rfl rfl
  | cpu kind _ ih => exact ⟨ih.board, kind.trans ih.cpu⟩
  | board work _ ih => exact ih.worked work

end C64.Machine
