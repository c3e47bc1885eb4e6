import C64.Proofs.Machine.Running

/-!
# Frames do not drift

A machine that is driven by frames, with no stop, reset or other configuration in between, stays on
time (`OnTime`): the cycles gone by and those left of the frame always add up to whole frames, and
the processor has counted each of them. From that follow the raster line at every instruction and
the cycle at which every frame is delivered, whatever the program does (`frames_on_time`).
-/

namespace C64.Machine

open Raster

variable {m m' : Machine} {t n k : Nat} {config : Config} {images : RomImages}

/-! ## Machines driven by frames -/

/-- What the host does between two instructions without touching the time: it sends input, fills
the memory and puts the processor elsewhere. -/
inductive Hosted : Machine → Machine → Prop
  | send (m : Machine) (e : InputEvent) : Hosted m (m.send e)
  | memory (m : Machine) (memory : Memory) : Hosted m { m with board.devices.memory := memory }
  | cpu (m : Machine) {cpu : Cpu} : cpu.totalCycles = m.cpu.totalCycles → Hosted m { m with cpu }

/-- The machines between two instructions of a run by frames. A run of one frame asks for the lines
anew, steps, forgets that the frame was complete and has its damage delivered. -/
inductive Driven (config : Config) (images : RomImages) : Machine → Prop
  | new {m : Machine} : new config images = .ok m → Driven config images m
  | hosted {m m' : Machine} : Driven config images m → m.Hosted m' → Driven config images m'
  | refresh {m : Machine} : Driven config images m → Driven config images m.refresh
  | step {m m' : Machine} {n : Nat} : Driven config images m → m.step = .ok (n, m') →
      Driven config images m'
  | takeFrame {m : Machine} : Driven config images m → Driven config images m.takeFrame
  | deliver {m : Machine} : Driven config images m → Driven config images m.deliver

/-- The machines behind so many runs of a frame. -/
inductive Framed (config : Config) (images : RomImages) : Nat → Machine → Prop
  | new {m : Machine} : new config images = .ok m → Framed config images 0 m
  | hosted {k : Nat} {m m' : Machine} : Framed config images k m → m.Hosted m' →
      Framed config images k m'
  | runFrame {k : Nat} {m m' : Machine} {σ : Type} [FrameSink σ] {sink sink' : σ}
      {report : FrameReport} : Takes σ → Framed config images k m →
      m.runFrame sink = .ok (report, m', sink') → Framed config images (k + 1) m'

/-! ## On time -/

theorem mostCycles_le_frame (s : VideoStandard) : Cpu.mostCycles ≤ s.cyclesPerFrame := by
  cases s <;> decide

/-- The cycles gone by and those left of the frame are whole frames. -/
structure OnTime (config : Config) (m : Machine) : Prop where
  config_eq : m.config = config
  going : ∃ t, m.Going t ∧ m.cycles + t = (m.frames + 1) * config.standard.cyclesPerFrame
  counted : m.cpu.totalCycles = m.cycles
  stopRequested : m.stopRequested = false
  resetRequested : m.resetRequested = false

theorem Going.hosted (h : m.Going t) (by' : m.Hosted m') : m'.Going t := by
  cases by' with
  | send e => exact ⟨h.live, h.ends⟩
  | memory memory =>
    have live := h.live.withDevices (d := { m.board.devices with memory }) h.live.trailed rfl rfl
      rfl rfl
    exact ⟨live, h.ends.of_stand rfl⟩
  | cpu same => exact ⟨h.live, h.ends⟩

theorem Going.takeFrame (h : m.Going t) : m.takeFrame.Going t := by
  have live := h.live.withDevices (d := { m.board.devices with frameComplete := false })
    h.live.trailed rfl rfl rfl rfl
  obtain ⟨due, waits, ends⟩ := h.ends
  exact ⟨live, due, waits, ends.1, ends.2, ends.3, ends.4⟩

theorem OnTime.hosted (h : OnTime config m) (by' : m.Hosted m') : OnTime config m' := by
  obtain ⟨config_eq, ⟨t, going, left⟩, counted, stop, reset⟩ := h
  have going' := going.hosted by'
  cases by' with
  | send e => exact ⟨config_eq, ⟨t, going', left⟩, counted, stop, reset⟩
  | memory memory => exact ⟨config_eq, ⟨t, going', left⟩, counted, stop, reset⟩
  | cpu same => exact ⟨config_eq, ⟨t, going', left⟩, same.trans counted, stop, reset⟩

/-- What the lines hold is of no account. -/
theorem OnTime.refresh (h : OnTime config m) : OnTime config m.refresh := by
  obtain ⟨config_eq, ⟨t, going, left⟩, counted, stop, reset⟩ := h
  exact ⟨config_eq, ⟨t, going.refresh, left⟩, counted, stop, reset⟩

theorem OnTime.deliver (h : OnTime config m) : OnTime config m.deliver := by
  obtain ⟨config_eq, ⟨t, going, left⟩, counted, stop, reset⟩ := h
  exact ⟨config_eq, ⟨t, going.deliver, left⟩, counted, stop, reset⟩

theorem OnTime.takeFrame (h : OnTime config m) : OnTime config m.takeFrame := by
  obtain ⟨config_eq, ⟨t, going, left⟩, counted, stop, reset⟩ := h
  exact ⟨config_eq, ⟨t, going.takeFrame, left⟩, counted, stop, reset⟩

/-- A step that stays within the frame, or completes it, keeps to the time. -/
theorem OnTime.stepped (h : OnTime config m) (going : m.Going t)
    (left : m.cycles + t = (m.frames + 1) * config.standard.cyclesPerFrame)
    (step : m.Stepped t n m') : OnTime config m' := by
  have made : m.board.devices.vic.standard = config.standard := by
    rw [going.live.fit.made.vic, h.config_eq]
  have age : m'.cycles = m.cycles + n := step.board.elapsed
  refine ⟨step.config.trans h.config_eq, ?_, ?_, step.stopRequested.trans h.stopRequested,
    step.resetRequested.trans h.resetRequested⟩
  · rcases step.going with ⟨soon, going', same, -⟩ | ⟨past, going', next, -⟩
    · exact ⟨_, going', by rw [same]; omega⟩
    · have short : n ≤ config.standard.cyclesPerFrame :=
        Nat.le_trans step.le_most (mostCycles_le_frame _)
      refine ⟨_, going', ?_⟩
      rw [made, next, Nat.succ_mul]
      omega
  · rw [step.totalCycles, h.counted, age]

theorem new_onTime (images : RomImages)
    (slow : ∀ rtc ∈ config.rtc, rtc.cyclesPerSecond ≤ Cycle.headroom) :
    Succeeds (fun m => OnTime config m ∧ m.frames = 0 ∧ m.cycles = Cpu.interruptCycles ∧
      m.board.devices.frameComplete = false) (new config images) := by
  refine (new_going images slow).mono ?_
  rintro m ⟨m₀, stepped, config_eq, total, stand, stop, reset⟩
  simp only [Board.stand, startStand, Board.Stand.mk.injEq] at stand
  obtain ⟨now, base, -, -, made, -, frame, complete⟩ := stand
  have before : m₀.cycles = 0 := by
    show m₀.board.clock.base + m₀.board.clock.now = 0
    rw [now, base]
  have age : m.cycles = Cpu.interruptCycles := by
    rw [show m.cycles = m₀.cycles + Cpu.interruptCycles from stepped.board.elapsed, before,
      Nat.zero_add]
  have none : m₀.frames = 0 := frame
  have long : Cpu.interruptCycles < config.standard.cyclesPerFrame :=
    Nat.lt_of_lt_of_le (by decide) (mostCycles_le_frame _)
  rcases stepped.going with ⟨soon, going, same, still⟩ | ⟨past, -⟩
  · refine ⟨⟨stepped.config.trans config_eq, ⟨_, going, ?_⟩, ?_, stepped.stopRequested.trans stop,
      stepped.resetRequested.trans reset⟩, same.trans none, age, still.trans complete⟩
    · rw [age, same, none, Nat.zero_add, Nat.one_mul]
      omega
    · rw [stepped.totalCycles, total, age, Nat.zero_add]
  · omega

theorem Driven.onTime (slow : ∀ rtc ∈ config.rtc, rtc.cyclesPerSecond ≤ Cycle.headroom)
    (h : Driven config images m) : OnTime config m := by
  induction h with
  | new hnew => exact ((new_onTime images slow).of_ok hnew).1
  | hosted _ by' ih => exact ih.hosted by'
  | refresh _ ih => exact ih.refresh
  | step _ hstep ih =>
    obtain ⟨t, going, left⟩ := ih.going
    exact ih.stepped going left ((going.step ih.resetRequested).of_ok hstep)
  | takeFrame _ ih => exact ih.takeFrame
  | deliver _ ih => exact ih.deliver

/-! ## From frame to frame -/

/-- What is known of a machine behind so many runs of a frame. -/
structure AtFrame (config : Config) (images : RomImages) (k : Nat) (m : Machine) : Prop where
  driven : Driven config images m
  frames : m.frames = k
  late : m.cycles ≤ k * config.standard.cyclesPerFrame + 7
  fresh : m.board.devices.frameComplete = false

theorem AtFrame.hosted (h : AtFrame config images k m) (by' : m.Hosted m') :
    AtFrame config images k m' := by
  obtain ⟨driven, frames, late, fresh⟩ := h
  refine ⟨driven.hosted by', ?_, ?_, ?_⟩ <;> cases by' <;> assumption

/-- Within a frame: what is left of it brings the cycles to the end of the frame. -/
structure InFrame (config : Config) (images : RomImages) (k t : Nat) (m : Machine) : Prop where
  driven : Driven config images m
  going : m.Going t
  left : m.cycles + t = (k + 1) * config.standard.cyclesPerFrame
  frames : m.frames = k
  fresh : m.board.devices.frameComplete = false

/-- A step goes on within the frame, or completes it no more than seven cycles late. -/
theorem InFrame.step (slow : ∀ rtc ∈ config.rtc, rtc.cyclesPerSecond ≤ Cycle.headroom)
    (h : InFrame config images k t m) :
    Succeeds (fun out => (out.2.board.devices.frameComplete = true ∧
        AtFrame config images (k + 1) out.2.takeFrame) ∨
      (out.2.board.devices.frameComplete = false ∧
        ∃ t', t' < t ∧ InFrame config images k t' out.2)) m.step := by
  have reset := (h.driven.onTime slow).resetRequested
  refine ((h.going.step reset).and fun _ hstep => h.driven.step hstep).mono ?_
  rintro ⟨n, m'⟩ ⟨step, driven⟩
  have age : m'.cycles = m.cycles + n := step.board.elapsed
  have one_le := step.one_le
  have le_most : n ≤ 8 := step.le_most
  have left := h.left
  have pos := h.going.ends.pos
  rcases step.going with ⟨soon, going, same, still⟩ | ⟨past, -, next, done⟩
  · have fresh := still.trans h.fresh
    have left' : m'.cycles + (t - n) = (k + 1) * config.standard.cyclesPerFrame := by omega
    exact .inr ⟨fresh, t - n, by omega, driven, going, left', same.trans h.frames, fresh⟩
  · refine .inl ⟨done, driven.takeFrame, ?_, ?_, rfl⟩
    · exact next.trans (congrArg (· + 1) h.frames)
    · show m'.cycles ≤ _
      omega

/-- A run from anywhere within a frame completes it. -/
theorem InFrame.runFrame (slow : ∀ rtc ∈ config.rtc, rtc.cyclesPerSecond ≤ Cycle.headroom)
    (h : InFrame config images k t m) {σ : Type} [FrameSink σ] (takes : Takes σ) (sink : σ) :
    Succeeds (fun out => AtFrame config images (k + 1) out.2.1 ∧ out.1.status.isSome = true)
      (m.runFrame sink) := by
  have run : ∀ m₁, m₁ = m ∨ m₁ = m.refresh →
      Succeeds (fun out => AtFrame config images (k + 1) out.2 ∧ out.1 = true)
        (m₁.stepUntilFrame (2 * m.config.standard.cyclesPerFrame)) := by
    intro m₁ asked
    have inFrame : InFrame config images k t m₁ := by
      rcases asked with rfl | rfl
      · exact h
      · exact ⟨h.driven.refresh, h.going.refresh, h.left, h.frames, h.fresh⟩
    have enough : t < 2 * m.config.standard.cyclesPerFrame := by
      have pos := h.going.ends.pos
      have most := h.going.ends.le
      rw [h.going.live.fit.made.vic] at most
      omega
    refine (stepUntilFrame_succeeds (J := fun m => AtFrame config images (k + 1) m.takeFrame)
      (fun t m h _ => h.step slow) inFrame enough).mono ?_
    rintro ⟨complete, m'⟩ (⟨rfl, m'', done, rfl⟩ | ⟨-, t', m'', still, stop, -⟩)
    · exact ⟨done, rfl⟩
    · exact absurd stop (by simp [(still.driven.onTime slow).stopRequested])
  refine (runFrame_succeeds takes sink h.going run ?_).mono ?_
  · rintro out ⟨done, -⟩
    obtain ⟨t', going', -⟩ := (done.driven.onTime slow).going
    exact ⟨t', going'⟩
  · rintro ⟨report, m', sink'⟩ ⟨complete, m₂, ⟨done, rfl⟩, delivered, status⟩
    refine ⟨?_, status⟩
    rcases delivered with rfl | rfl
    · exact done
    · exact ⟨done.driven.deliver, done.frames, done.late, done.fresh⟩

/-- A run of a frame completes the next one. -/
theorem AtFrame.runFrame (slow : ∀ rtc ∈ config.rtc, rtc.cyclesPerSecond ≤ Cycle.headroom)
    (h : AtFrame config images k m) {σ : Type} [FrameSink σ] (takes : Takes σ) (sink : σ) :
    Succeeds (fun out => AtFrame config images (k + 1) out.2.1 ∧ out.1.status.isSome = true)
      (m.runFrame sink) := by
  obtain ⟨t, going, left⟩ := (h.driven.onTime slow).going
  rw [h.frames] at left
  exact InFrame.runFrame slow ⟨h.driven, going, left, h.frames, h.fresh⟩ takes sink

theorem Framed.atFrame (slow : ∀ rtc ∈ config.rtc, rtc.cyclesPerSecond ≤ Cycle.headroom)
    (h : Framed config images k m) : AtFrame config images k m := by
  induction h with
  | new hnew =>
    obtain ⟨-, frames, age, fresh⟩ := (new_onTime images slow).of_ok hnew
    exact ⟨.new hnew, frames, by rw [age]; exact Nat.le_add_left _ _, fresh⟩
  | hosted _ by' ih => exact ih.hosted by'
  | runFrame takes _ hrun ih => exact ((ih.runFrame slow takes _).of_ok hrun).1

/-- As many whole frames have gone by as were completed. -/
theorem OnTime.wholeFrames (h : OnTime config m) (frames : m.frames = k) :
    k * config.standard.cyclesPerFrame ≤ m.cycles := by
  obtain ⟨t, going, left⟩ := h.going
  have most := going.ends.le
  rw [going.live.fit.made.vic, h.config_eq] at most
  rw [frames, Nat.succ_mul] at left
  omega

/-! ## The raster at an instruction -/

/-- The raster line follows from the cycles gone by. -/
theorem OnTime.rasterLine (h : OnTime config m) :
    m.board.devices.vic.rasterLine =
      m.cycles / config.standard.cyclesPerLine % config.standard.linesPerFrame := by
  obtain ⟨t, going, left⟩ := h.going
  obtain ⟨due, -, ends⟩ := going.ends
  rw [going.live.fit.made.vic, h.config_eq] at ends
  exact ends.line_eq left

/-! ## Every frame -/

/-- A machine is built to every configuration whose real-time clock has no second too long, and
every run of a frame completes it. So many frames on, the cycles gone by are as many whole frames
and no more than seven cycles, and between two instructions the processor has counted every cycle,
and the raster is on the line they lead to. -/
theorem frames_on_time (config : Config) (images : RomImages)
    (slow : ∀ rtc ∈ config.rtc, rtc.cyclesPerSecond ≤ Cycle.headroom) :
    (∃ m, new config images = .ok m) ∧
    (∀ k m, Framed config images k m →
      k * config.standard.cyclesPerFrame ≤ m.cycles ∧
      m.cycles ≤ k * config.standard.cyclesPerFrame + 7 ∧ m.frames = k ∧
      ∀ (σ : Type) [FrameSink σ] (sink : σ), Takes σ → ∃ report m' sink',
        m.runFrame sink = .ok (report, m', sink') ∧ report.status.isSome = true) ∧
    ∀ m, Driven config images m → m.cycles = m.cpu.totalCycles ∧
      m.board.devices.vic.rasterLine =
        m.cycles / config.standard.cyclesPerLine % config.standard.linesPerFrame := by
  refine ⟨?_, ?_, ?_⟩
  · obtain ⟨m, hnew, -⟩ := new_onTime images slow
    exact ⟨m, hnew⟩
  · intro k m framed
    have atFrame := framed.atFrame slow
    refine ⟨?_, atFrame.late, atFrame.frames, ?_⟩
    · exact (atFrame.driven.onTime slow).wholeFrames atFrame.frames
    · intro σ _ sink takes
      obtain ⟨⟨report, m', sink'⟩, hrun, -, status⟩ := atFrame.runFrame slow takes sink
      exact ⟨report, m', sink', hrun, status⟩
  · intro m driven
    have onTime := driven.onTime slow
    exact ⟨onTime.counted.symm, onTime.rasterLine⟩

/-- A machine with a real-time clock and an adapter, behind its first frame. -/
theorem frames_on_time_first :
    let config : Config := { rtc := some {}, via := true }
    (∀ rtc ∈ config.rtc, rtc.cyclesPerSecond ≤ Cycle.headroom) ∧
    ∃ m, Framed config {} 1 m ∧
      config.standard.cyclesPerFrame ≤ m.cycles ∧
      m.cycles ≤ config.standard.cyclesPerFrame + 7 ∧ m.frames = 1 ∧
      m.board.devices.vic.rasterLine =
        m.cycles / config.standard.cyclesPerLine % config.standard.linesPerFrame := by
  intro config
  have slow : ∀ rtc ∈ config.rtc, rtc.cyclesPerSecond ≤ Cycle.headroom := by decide
  obtain ⟨⟨m, hnew⟩, framed, driven⟩ := frames_on_time config {} slow
  obtain ⟨-, -, -, run⟩ := framed 0 m (.new hnew)
  obtain ⟨report, m', sink', hrun, -⟩ := run NullSink {} takes_nullSink
  have first : Framed config {} 1 m' := .runFrame takes_nullSink (.new hnew) hrun
  obtain ⟨whole, late, frames, -⟩ := framed 1 m' first
  rw [Nat.one_mul] at whole late
  exact ⟨slow, m', first, whole, late, frames, (driven m' (first.atFrame slow).driven).2⟩

end C64.Machine
