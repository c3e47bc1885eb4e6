import C64.Proofs.Board.Raster
import C64.Proofs.Machine.Reset

/-!
# Machines that run on

On a live board nothing fails, so a machine with one goes on step by step (`Going.step`), and each
step takes one to eight cycles off what is left of the frame. What is left goes down, so a run until
the frame is complete ends (`stepUntilFrame_succeeds`).
-/

namespace C64

/-! ## The processor on a live board -/

namespace Board

open Clock

variable {standard : VideoStandard} {cia : Cia.Config} {b b₁ b' : Board} {t n : Nat}

/-- A live board `n` cycles later, of which the frame was to end in `t`. -/
structure Later (standard : VideoStandard) (cia : Cia.Config) (t n : Nat) (b b' : Board) :
    Prop where
  live : b'.Live standard cia
  elapsed : b'.clock.elapsed = b.clock.elapsed + n
  counted : Counted (Event.all.length + 1) n b.clock b'.clock
  passes : Passes b t n b'

/-- Time passes behind accesses that moved nothing of what only time moves, and set no more alarms
than cycles are to pass. -/
theorem Live.later (live : b₁.Live standard cia) (ends : b.FrameEndsIn t)
    (stands : b₁.stand = b.stand) (numbered : b₁.clock.nextOrder ≤ b.clock.nextOrder + n)
    (short : n ≤ Cpu.mostCycles) : Succeeds (Later standard cia t n b) (b₁.tick n) := by
  have line : n ≤ standard.cyclesPerLine := by
    have : Cpu.mostCycles ≤ standard.cyclesPerLine := by cases standard <;> decide
    omega
  refine (live.tick (ends.of_stand stands) line).mono ?_
  rintro b' ⟨live', age, ⟨given, rebased⟩, passes⟩
  simp only [stand, Stand.mk.injEq] at stands
  obtain ⟨now, base, rebases, -, same, -, frame, complete⟩ := stands
  refine ⟨live', ?_, ⟨?_, ?_⟩, ?_⟩
  · rw [age]
    unfold Clock.elapsed
    rw [now, base]
  · rw [Nat.succ_mul]
    omega
  · rwa [now, base, rebases] at rebased
  · cases passes with
    | within soon ends' next still => exact .within soon ends' (next.trans frame) (still.trans complete)
    | ended past ends' next done =>
      rw [same] at ends'
      exact .ended past ends' (next.trans (congrArg (· + 1) frame)) done

/-- An instruction, an entry of an interrupt or a cycle of standing still, on a board that has not
moved in time. -/
theorem Live.cpu_step (h : b₁.Live standard cia) (ends : b.FrameEndsIn t)
    (stands : b₁.stand = b.stand) (order : b₁.clock.nextOrder = b.clock.nextOrder) (cpu : Cpu) :
    Succeeds (fun out => 1 ≤ out.1 ∧ out.1 ≤ Cpu.mostCycles ∧
      out.2.1.totalCycles = cpu.totalCycles + out.1 ∧ Later standard cia t out.1 b out.2.2)
      (cpu.step b₁) := by
  refine Cpu.step_spends (k := 0) (Q := fun n => Later standard cia t n b) (live_sustains b)
    ⟨h, stands, Nat.le_of_eq order⟩ ?_
  rintro n writes b₂ - le_most few ⟨live, stands, numbered⟩
  exact live.later ends stands (by omega) le_most

theorem Live.cpu_reset (h : b.Live standard cia) (ends : b.FrameEndsIn t) (cpu : Cpu) :
    Succeeds (fun out => out.1.totalCycles = cpu.totalCycles + Cpu.interruptCycles ∧
      Later standard cia t Cpu.interruptCycles b out.2) (cpu.reset b) := by
  refine Cpu.reset_spends (k := 0) (Q := fun n => Later standard cia t n b) (live_sustains b)
    ⟨h, rfl, Nat.le_refl _⟩ ?_
  rintro b₁ ⟨live, stands, numbered⟩
  exact live.later ends stands (by omega) (by decide)

/-! ## The host's hands -/

/-- The host leaves the chips with alarms alone, and a video chip whose damage is in order. -/
theorem Live.withDevices (h : b.Live standard cia) {d : Devices}
    (trailed : ∃ view, Vic.Trailed standard view d.vic) (cia1 : d.cia1 = b.devices.cia1)
    (cia2 : d.cia2 = b.devices.cia2) (via : d.via = b.devices.via) (rtc : d.rtc = b.devices.rtc) :
    Live standard cia { b with devices := d } := by
  obtain ⟨⟨⟨clock, devices⟩, scheduled, made⟩, paced, dialled, -⟩ := h
  obtain ⟨view, trailed⟩ := trailed
  refine ⟨⟨⟨clock, ?_⟩, ?_, ?_⟩, paced.congr (by rw [rtc]),
    ⟨cia1 ▸ dialled.cia1, cia2 ▸ dialled.cia2⟩, view, trailed⟩
  · exact ⟨trailed.sound, cia1 ▸ devices.cia1, cia2 ▸ devices.cia2, rtc ▸ devices.rtc⟩
  · exact scheduled.withDevices (scheduled.owners.congr cia1 cia2 via (congrArg Option.isSome rtc))
  · exact ⟨trailed.standard_eq, cia1 ▸ made.cia1, cia2 ▸ made.cia2⟩

end Board

namespace Machine

open Raster

variable {m m' : Machine} {t n : Nat}

/-- A machine with a live board, whose frame ends in so many cycles. -/
structure Going (t : Nat) (m : Machine) : Prop where
  live : m.board.Live m.config.standard m.config.cia.1
  ends : m.board.FrameEndsIn t

/-- A machine `n` cycles later, when the frame was to end in `t`. -/
structure Stepped (t : Nat) (m : Machine) (n : Nat) (m' : Machine) : Prop where
  one_le : 1 ≤ n
  le_most : n ≤ Cpu.mostCycles
  config : m'.config = m.config
  stopRequested : m'.stopRequested = m.stopRequested
  resetRequested : m'.resetRequested = m.resetRequested
  totalCycles : m'.cpu.totalCycles = m.cpu.totalCycles + n
  board : m.board.Later m.config.standard m.config.cia.1 t n m'.board

/-! ## Steps -/

/-- Input does not move anything that time moves. -/
theorem stand_applyInput (m : Machine) : m.applyInput.board.stand = m.board.stand := by
  obtain ⟨keyboard, joystick1, joystick2, heq⟩ := m.applyInput_eq
  rw [heq]
  rfl

theorem Going.applyInput (h : m.Going t) : m.applyInput.Going t := by
  refine ⟨?_, h.ends.of_stand m.stand_applyInput⟩
  obtain ⟨keyboard, joystick1, joystick2, heq⟩ := m.applyInput_eq
  rw [heq]
  exact h.live.withDevices h.live.trailed rfl rfl rfl rfl

/-- A step succeeds. -/
theorem Going.step (h : m.Going t) (noReset : m.resetRequested = false) :
    Succeeds (fun out => m.Stepped t out.1 out.2) m.step := by
  have ready : m.ready = .ok m.applyInput := by simp [Machine.ready, noReset]
  have live := h.applyInput.live
  have config : m.applyInput.config = m.config := by
    obtain ⟨_, _, _, heq⟩ := m.applyInput_eq
    rw [heq]
  have stopRequested : m.applyInput.stopRequested = m.stopRequested := by
    obtain ⟨_, _, _, heq⟩ := m.applyInput_eq
    rw [heq]
  rw [config] at live
  rw [step_eq, ready, ok_bind]
  refine (live.cpu_step h.ends m.stand_applyInput (by rw [applyInput_clock]) _).bind ?_
  rintro ⟨n, cpu, board⟩ ⟨one_le, le_most, total, later⟩
  rw [applyInput_cpu] at total
  exact .ok ⟨one_le, le_most, config, stopRequested, m.applyInput_resetRequested, total, later⟩

/-- An action of the processor on the board as it is succeeds. -/
theorem Going.execute (h : m.Going t) :
    Succeeds (fun out => m.Stepped t out.1 { m with cpu := out.2.1, board := out.2.2 })
      (m.cpu.step m.board) := by
  refine (h.live.cpu_step h.ends rfl rfl m.cpu).mono ?_
  rintro ⟨n, cpu, board⟩ ⟨one_le, le_most, total, later⟩
  exact ⟨one_le, le_most, rfl, rfl, rfl, total, later⟩

/-- A step leads to a machine that goes on, within the frame or at the start of the next. -/
theorem Stepped.going (h : m.Stepped t n m') :
    (n < t ∧ m'.Going (t - n) ∧ m'.frames = m.frames ∧
        m'.board.devices.frameComplete = m.board.devices.frameComplete) ∨
      (t ≤ n ∧ m'.Going (t + m.board.devices.vic.standard.cyclesPerFrame - n) ∧
        m'.frames = m.frames + 1 ∧ m'.board.devices.frameComplete = true) := by
  have live : m'.board.Live m'.config.standard m'.config.cia.1 := by
    rw [h.config]
    exact h.board.live
  cases h.board.passes with
  | within soon ends same still => exact .inl ⟨soon, ⟨live, ends⟩, same, still⟩
  | ended past ends next done => exact .inr ⟨past, ⟨live, ends⟩, next, done⟩

/-! ## Building -/

/-- The reset sequence of the processor is over in the time of an interrupt. -/
theorem Going.resetCpu (h : m.Going t) :
    Succeeds (fun m' => m.Stepped t Cpu.interruptCycles m') m.resetCpu := by
  refine (h.live.cpu_reset h.ends m.cpu).bind ?_
  rintro ⟨cpu, board⟩ ⟨total, later⟩
  exact .ok ⟨by decide, by decide, rfl, rfl, rfl, total, later⟩

/-- What a board shows that was just built. -/
def startStand (standard : VideoStandard) : Board.Stand :=
  ⟨0, 0, 0, some standard.cyclesPerLine, standard, 0, 0, false⟩

/-- A board is built to every configuration whose real-time clock has no second too long. -/
theorem buildBoard_live (memory : Memory) {config : Config}
    (slow : ∀ rtc ∈ config.rtc, rtc.cyclesPerSecond ≤ Cycle.headroom) :
    Succeeds (fun out => out.1.Live config.standard config.cia.1 ∧
      out.1.stand = startStand config.standard ∧
      (config.rtc = none → out.1.clock.nextOrder = 3)) (buildBoard memory config) := by
  have adapter : ∀ {b : Board}, b.Live config.standard config.cia.1 →
      Board.Live config.standard config.cia.1 (if config.via then b.attachVia else b) := by
    intro b live
    split
    · exact live.attachVia
    · exact live
  have stands : ∀ b : Board, (if config.via then b.attachVia else b).stand = b.stand ∧
      (if config.via then b.attachVia else b).clock = b.clock := by
    intro b
    split
    · refine ⟨b.stand_attachVia, ?_⟩
      unfold Board.attachVia
      split <;> rfl
    · exact ⟨rfl, rfl⟩
  unfold buildBoard
  simp only []
  refine (Board.new_live memory config.standard config.cia_paced).bind ?_
  rintro b ⟨live, stand, order⟩
  cases hrtc : config.rtc with
  | none =>
    simp only [pure_bind]
    refine .ok ⟨adapter live, (stands b).1.trans stand, fun _ => ?_⟩
    rw [(stands b).2, order]
  | some rtc =>
    refine (live.attachRtc (slow rtc hrtc)).bind ?_
    rintro ⟨error, b'⟩ ⟨live', stand'⟩
    exact .ok ⟨adapter live', ((stands b').1.trans stand').trans stand, by simp⟩

/-- A board that was just built has a whole frame before it. -/
theorem frameEndsIn_start {b : Board} {standard : VideoStandard}
    (h : b.stand = startStand standard) : b.FrameEndsIn standard.cyclesPerFrame := by
  simp only [Board.stand, startStand, Board.Stand.mk.injEq] at h
  obtain ⟨now, -, -, waits, rfl, line, -⟩ := h
  exact Board.frameEndsIn_firstLine line (by rw [waits, now, Nat.zero_add])

/-- A machine is built, and comes out of the reset of its processor. -/
theorem new_going (images : RomImages) {config : Config}
    (slow : ∀ rtc ∈ config.rtc, rtc.cyclesPerSecond ≤ Cycle.headroom) :
    Succeeds (fun m => ∃ m₀ : Machine, m₀.Stepped config.standard.cyclesPerFrame
      Cpu.interruptCycles m ∧ m₀.config = config ∧ m₀.cpu.totalCycles = 0 ∧
      m₀.board.stand = startStand config.standard ∧ m₀.stopRequested = false ∧
      m₀.resetRequested = false) (new config images) := by
  unfold Machine.new
  simp only []
  refine (buildBoard_live _ slow).bind ?_
  rintro ⟨board, errors⟩ ⟨live, stand, -⟩
  refine (Going.resetCpu ⟨live, frameEndsIn_start stand⟩).mono ?_
  intro m stepped
  exact ⟨_, stepped, rfl, rfl, stand, rfl, rfl⟩

/-! ## Until a frame is complete -/

/-- Steps that succeed and bring down what is left, until one completes the frame, lead there or to
a stop. -/
theorem stepUntilFrame_succeeds {I : Nat → Machine → Prop} {J : Machine → Prop}
    (step : ∀ t m, I t m → m.stopRequested = false →
      Succeeds (fun out => (out.2.board.devices.frameComplete = true ∧ J out.2) ∨
        (out.2.board.devices.frameComplete = false ∧ ∃ t', t' < t ∧ I t' out.2)) m.step)
    {fuel : Nat} (h : I t m) (enough : t < fuel) :
    Succeeds (fun out => (out.1 = true ∧ ∃ m', J m' ∧ out.2 = m'.takeFrame) ∨
      (out.1 = false ∧ ∃ t' m', I t' m' ∧ m'.stopRequested = true ∧
        out.2 = { m' with stopRequested := false })) (m.stepUntilFrame fuel) := by
  induction fuel generalizing t m with
  | zero => exact absurd enough (Nat.not_lt_zero t)
  | succ fuel ih =>
    unfold Machine.stepUntilFrame
    split
    · next stop => exact .ok (.inr ⟨rfl, t, m, h, stop, rfl⟩)
    · next go =>
      refine (step t m h (Bool.eq_false_iff.mpr go)).bind ?_
      rintro ⟨n, m'⟩ (⟨done, hJ⟩ | ⟨still, t', fewer, h'⟩)
      · have done : m'.board.devices.frameComplete = true := done
        simp only [done, if_true]
        exact .ok (.inl ⟨rfl, m', hJ, rfl⟩)
      · have still : m'.board.devices.frameComplete = false := still
        simp only [still, Bool.false_eq_true, if_false]
        exact ih h' (by omega)

/-! ## Frames and sinks -/

/-- The machine when every line was asked for anew. -/
def refresh (m : Machine) : Machine :=
  { m with board.devices.vic := m.board.devices.vic.invalidate }

/-- The machine when a sink has taken what changed. -/
def deliver (m : Machine) : Machine :=
  { m with board.devices.vic.cache := m.board.devices.vic.cache.clearDamage }

theorem Going.refresh (h : m.Going t) : m.refresh.Going t := by
  obtain ⟨view, trailed⟩ := h.live.trailed
  exact ⟨h.live.withDevices ⟨view, trailed.invalidate⟩ rfl rfl rfl rfl, h.ends.of_stand rfl⟩

theorem Going.deliver (h : m.Going t) : m.deliver.Going t := by
  obtain ⟨view, trailed⟩ := h.live.trailed
  exact ⟨h.live.withDevices ⟨_, trailed.clearDamage⟩ rfl rfl rfl rfl, h.ends.of_stand rfl⟩

/-- A sink that comes to an end with every frame whose changed parts lie inside its lines. -/
def Takes (σ : Type) [FrameSink σ] : Prop :=
  ∀ (g : Shape) (sink : σ) (f : Frame g) (dirty : List DirtyLine),
    f.cache.dirtyLines = .ok dirty → ∃ out, FrameSink.present sink f = .ok out

theorem takes_nullSink : Takes NullSink := fun _ _ _ _ _ => ⟨_, rfl⟩

theorem takes_fullFrame : Takes FullFrame := by
  intro g sink f dirty hdirty
  simp only [FrameSink.present, FullFrame.present, hdirty]
  exact ⟨_, rfl⟩

theorem takes_frameChannel : Takes FrameChannel := by
  intro g sink f dirty hdirty
  simp only [FrameSink.present, FrameChannel.present, Snapshot.ofFrame, hdirty, bind, Except.bind,
    pure, Except.pure]
  split <;> exact ⟨_, rfl⟩

/-- The run of a frame is the run until the frame is complete, on a machine whose lines may be
asked for anew before, and whose damage may be delivered behind. -/
theorem runFrame_succeeds {σ : Type} [FrameSink σ] (takes : Takes σ) (sink : σ) (h : m.Going t)
    {Q : Bool × Machine → Prop}
    (run : ∀ m₁, m₁ = m ∨ m₁ = m.refresh →
      Succeeds Q (m₁.stepUntilFrame (2 * m.config.standard.cyclesPerFrame)))
    (going : ∀ out, Q out → ∃ t', out.2.Going t') :
    Succeeds (fun out => ∃ complete m₂, Q (complete, m₂) ∧
      (out.2.1 = m₂ ∨ out.2.1 = m₂.deliver) ∧ out.1.status.isSome = complete)
      (m.runFrame sink) := by
  have start : ∀ wanted : Bool, (if wanted then m.refresh else m) = m ∨
      (if wanted then m.refresh else m) = m.refresh := by
    intro wanted
    cases wanted with
    | true => exact .inr rfl
    | false => exact .inl rfl
  have fuel : ∀ wanted : Bool, (if wanted then
      { m with board.devices.vic := m.board.devices.vic.invalidate }
      else m).board.devices.vic.standard = m.config.standard := by
    intro wanted
    cases wanted <;> exact h.live.fit.made.vic
  unfold Machine.runFrame
  simp only []
  rw [fuel]
  refine (run _ (start _)).bind ?_
  rintro ⟨complete, m₂⟩ hQ
  obtain ⟨t', going'⟩ := going _ hQ
  obtain ⟨view, trailed⟩ := going'.live.trailed
  obtain ⟨dirty, hdirty, -⟩ := trailed.trails.dirtyLines
  obtain ⟨found, hfound, -⟩ := trailed.trails.damaged
  have count : m₂.board.devices.vic.cache.dirtyCount = .ok found.length := by
    unfold Cache.dirtyCount
    rw [hfound]
    rfl
  simp only []
  rw [count, ok_bind]
  cases complete with
  | false => exact .ok ⟨false, m₂, hQ, .inl rfl, rfl⟩
  | true =>
    obtain ⟨⟨status, sink'⟩, hpresent⟩ := takes _ (FrameSink.takeRefresh sink).2
      ⟨m₂.board.devices.vic.frame, m₂.board.devices.vic.cache⟩ dirty hdirty
    simp only [if_true, Vic.present]
    rw [hpresent]
    refine .ok ⟨true, m₂, hQ, ?_, rfl⟩
    by_cases taken : status = .presented
    · exact .inr (by simp only [taken, if_true]; rfl)
    · exact .inl (by simp only [taken, if_false])

end Machine

end C64
