import C64.Proofs.Machine.Configured

/-!
# Changes of the configuration

On a machine that was led with seconds the clock can count (`Slow`), the configuration can be
changed at any time, and the change leads to what it asks for (`reconfigure_reaches`). The memory
and the ROMs stay. Where no new board is needed, everything else stays too, apart from the optional
chips that come or go, with their alarms (`InPlace`).
-/

namespace C64.Machine

open Raster Clock

/-- The real-time clock of a configuration, if there is one, has a second within the headroom. -/
def Slow (config : Config) : Prop := ∀ rtc ∈ config.rtc, rtc.cyclesPerSecond ≤ Cycle.headroom

instance (config : Config) : Decidable (Slow config) :=
  inferInstanceAs (Decidable (∀ rtc ∈ config.rtc, rtc.cyclesPerSecond ≤ Cycle.headroom))

variable {m m' : Machine} {config : Config} {images : RomImages} {tried : Bool} {t n : Nat}

/-! ## Machines that go on -/

theorem Stepped.goesOn (h : m.Stepped t n m') : ∃ t', m'.Going t' := by
  rcases h.going with ⟨-, going, -⟩ | ⟨-, going, -⟩
  · exact ⟨_, going⟩
  · exact ⟨_, going⟩

/-- A step succeeds, also one that resets the machine. -/
theorem Going.stepOn (h : m.Going t) : Succeeds (fun out => ∃ t', out.2.Going t') m.step := by
  have ready : Succeeds (fun m₁ => ∃ t₁, m₁.Going t₁) m.ready := by
    unfold Machine.ready
    split
    · refine h.applyInput.live.reset.bind ?_
      rintro board ⟨live, stands, -⟩
      simp only [Board.stand, Board.Stand.mk.injEq] at stands
      obtain ⟨now, -, -, waits, -, line, -⟩ := stands
      -- The raster is back in the first line, with a whole frame to go.
      have first := Board.frameEndsIn_firstLine line (by rw [waits, now, live.fit.made.vic])
      have going : Going _ { m.applyInput with board, resetRequested := false } := ⟨live, first⟩
      exact going.resetCpu.mono fun _ stepped => stepped.goesOn
    · exact .ok ⟨t, h.applyInput⟩
  rw [step_eq]
  refine ready.bind ?_
  rintro m₁ ⟨t₁, going⟩
  exact going.execute.bind fun _ stepped => .ok stepped.goesOn

theorem Going.stepUntilFrame (h : m.Going t) {budget : Nat} {complete : Bool}
    (hrun : m.stepUntilFrame budget = .ok (complete, m')) : ∃ t', m'.Going t' := by
  have step {m₁ m₂ : Machine} {n : Nat} (goesOn : ∃ t, m₁.Going t)
      (hstep : m₁.step = .ok (n, m₂)) : ∃ t, m₂.Going t := by
    obtain ⟨t, going⟩ := goesOn
    exact going.stepOn.of_ok hstep
  rcases stepUntilFrame_leads step (fun goesOn _ => goesOn) ⟨t, h⟩ hrun with
    ⟨-, m₁, ⟨t₁, going⟩, rfl⟩ | ⟨-, m₁, ⟨t₁, going⟩, -, rfl⟩
  · exact ⟨t₁, going.live, going.ends⟩
  · exact ⟨t₁, going.takeFrame⟩

theorem Going.runFrame (h : m.Going t) {σ : Type} [FrameSink σ] {sink sink' : σ}
    {report : FrameReport} (hrun : m.runFrame sink = .ok (report, m', sink')) :
    ∃ t', m'.Going t' := by
  obtain ⟨m₁, budget, hframe, delivered, -⟩ := runFrame_ok hrun
  have asked : (m.asked (FrameSink.takeRefresh sink).1).Going t := by
    unfold Machine.asked
    split
    · exact h.refresh
    · exact h
  obtain ⟨t', going⟩ := asked.stepUntilFrame hframe
  rcases delivered with rfl | rfl
  · exact ⟨t', going⟩
  · exact ⟨t', going.deliver⟩

/-! ## A change succeeds -/

/-- The optional chips are fitted in place in no time. -/
theorem Going.refit_any (h : m.Going t) (slow : Slow config) :
    Succeeds (fun out => out.1.Live m.config.standard m.config.cia.1 ∧ out.1.stand = m.board.stand)
      (m.refit config) := by
  have adapter : ∀ b : Board, b.Live m.config.standard m.config.cia.1 → b.stand = m.board.stand →
      Board.Live m.config.standard m.config.cia.1
          (if config.via then b.attachVia else b.detachVia) ∧
        (if config.via then b.attachVia else b.detachVia).stand = m.board.stand := by
    intro b live stand
    split
    · exact ⟨live.attachVia, b.stand_attachVia.trans stand⟩
    · exact ⟨live.detachVia, b.stand_detachVia.trans stand⟩
  unfold Machine.refit
  simp only []
  split
  · exact .ok (adapter _ h.live rfl)
  · split
    · next rtc hrtc =>
      refine (h.live.attachRtc (slow rtc hrtc)).bind ?_
      rintro ⟨error, b⟩ ⟨live, stand⟩
      exact .ok (adapter _ live stand)
    · exact .ok (adapter _ h.live.detachRtc m.board.stand_detachRtc)

theorem Going.reconfigure (h : m.Going t) (slow : Slow config) :
    Succeeds (fun m' => ∃ t', m'.Going t') (m.reconfigure config) := by
  by_cases rebuild : m.Rebuilds config
  · rw [reconfigure_of_rebuilds rebuild]
    refine (buildBoard_live _ slow).bind ?_
    rintro ⟨board, errors⟩ ⟨live, stand, -⟩
    have going : (m.configured config board errors).Going config.standard.cyclesPerFrame :=
      ⟨live, frameEndsIn_start stand⟩
    exact going.resetCpu.mono fun _ stepped => stepped.goesOn
  · rw [reconfigure_in_place rebuild]
    obtain ⟨standard, todHz⟩ := not_or.mp rebuild
    refine (h.refit_any slow).bind ?_
    rintro ⟨board, errors⟩ ⟨live, stands⟩
    rw [← not_not.mp standard, ← cia_eq (not_not.mp standard) (not_not.mp todHz)] at live
    have going : (m.configured config board errors).Going t := ⟨live, h.ends.of_stand stands⟩
    exact .ok ⟨t, going⟩

/-- Every machine that was led with slow clocks goes on. -/
theorem Led.going (h : Led Slow images tried m) : ∃ t, m.Going t := by
  induction h with
  | new slow hrun =>
    obtain ⟨m₀, stepped, -⟩ := (new_going images slow).of_ok hrun
    exact stepped.goesOn
  | reconfigure _ slow hrun ih =>
    obtain ⟨t, going⟩ := ih
    exact (going.reconfigure slow).of_ok hrun
  | step _ hrun ih =>
    obtain ⟨t, going⟩ := ih
    exact going.stepOn.of_ok hrun
  | runFrame _ hrun ih =>
    obtain ⟨t, going⟩ := ih
    exact going.runFrame hrun
  | requestStop _ ih => exact ih.imp fun _ going => ⟨going.live, going.ends⟩
  | requestReset _ ih => exact ih.imp fun _ going => ⟨going.live, going.ends⟩
  | send e _ ih => exact ih.imp fun _ going => ⟨going.live, going.ends⟩
  | load address bytes _ ih => exact ih.imp fun _ going => going.hosted (.memory _ _)

/-! ## What a change reaches -/

/-- The memory apart from the processor's port, which a new board starts anew. -/
structure SameMemory (d d' : Board.Devices) : Prop where
  ram : d'.memory.ram = d.memory.ram
  colours : d'.memory.colours = d.memory.colours
  roms : d'.memory.roms = d.memory.roms

/-- A machine is what a configuration asks for, with the ROMs it was built with. -/
structure Reaches (images : RomImages) (config : Config) (m : Machine) : Prop where
  inForce : m.config = config
  standard : m.board.devices.vic.standard = config.standard
  cpu : m.cpu.config = config.cpu
  via : m.board.devices.via.isSome = config.via
  rtc : m.board.devices.rtc.isSome = true ↔
    ∃ rtc ∈ config.rtc, rtc.cyclesPerSecond ≠ 0 ∧ rtc.start.error? = none
  roms : m.board.devices.memory.roms = (Roms.ofImages images).1

theorem Led.reaches {Allowed : Config → Prop} (h : Led Allowed images tried m) :
    m.Reaches images m.config := by
  obtain ⟨sound, fixtures, -⟩ := h.furnished
  refine ⟨rfl, sound.board.made.vic, sound.cpu, congrArg Board.Fixtures.via fixtures, ?_,
    congrArg Board.Fixtures.roms fixtures⟩
  rw [← Config.hasClock_iff]
  exact (congrArg (· = true) (congrArg Board.Fixtures.rtc fixtures)).to_iff

theorem reconfigure_memory
    (fitted : m.board.devices.fixtures = m.config.fixtures (Roms.ofImages images).1)
    (hrun : m.reconfigure config = .ok m') : SameMemory m.board.devices m'.board.devices := by
  by_cases rebuild : m.Rebuilds config
  · rw [reconfigure_of_rebuilds rebuild] at hrun
    obtain ⟨⟨board, errors⟩, hboard, hcpu⟩ := bind_eq_ok.mp hrun
    obtain ⟨⟨cpu, board'⟩, hreset, hret⟩ := bind_eq_ok.mp hcpu
    cases hret
    have kept := (buildBoard_fit hboard).sound.cpu_reset_memory hreset
    have memory : board'.devices.memory = m.board.devices.memory.reset :=
      kept.trans (buildBoard_ok hboard).1
    refine ⟨?_, ?_, ?_⟩
    · exact (congrArg Memory.ram memory :)
    · exact (congrArg Memory.colours memory :)
    · exact (congrArg Memory.roms memory :)
  · rw [reconfigure_in_place rebuild] at hrun
    obtain ⟨⟨board, errors⟩, hboard, hret⟩ := bind_eq_ok.mp hrun
    cases hret
    obtain ⟨_, _, _, devices⟩ := (refit_ok fitted hboard).1.refitted.devices
    have memory : board.devices.memory = m.board.devices.memory := by rw [devices]
    exact ⟨congrArg Memory.ram memory, congrArg Memory.colours memory,
      congrArg Memory.roms memory⟩

/-- However a machine was led, a change of the configuration succeeds, reaches what it asks for and
keeps the memory. Where neither the standard nor the rate of the time of day changes, no time passes,
the processor keeps all but its kind, and of the board only the optional chips that come or go are
touched, and their alarms. -/
theorem reconfigure_reaches (h : Led Slow images tried m) (slow : Slow config) :
    ∃ m', m.reconfigure config = .ok m' ∧ m'.Reaches images config ∧
      SameMemory m.board.devices m'.board.devices ∧
      (config.standard = m.config.standard → config.todHz = m.config.todHz →
        m'.cycles = m.cycles ∧ m'.cpu = { m.cpu with config := config.cpu } ∧
          m.InPlace config m'.board) := by
  obtain ⟨t, going⟩ := h.going
  obtain ⟨m', hrun, -⟩ := going.reconfigure slow
  have furnished := h.furnished
  have reached := (h.reconfigure slow hrun).reaches
  rw [reconfigure_config hrun] at reached
  refine ⟨m', hrun, reached, reconfigure_memory furnished.fixtures hrun, ?_⟩
  intro standard todHz
  have still : ¬m.Rebuilds config := by simp [Rebuilds, standard, todHz]
  rw [reconfigure_in_place still] at hrun
  obtain ⟨⟨board, errors⟩, hboard, hret⟩ := bind_eq_ok.mp hrun
  cases hret
  obtain ⟨inPlace, -⟩ := refit_ok furnished.fixtures hboard
  have tends := inPlace.refitted.tends
  refine ⟨?_, rfl, inPlace⟩
  show board.clock.base + board.clock.now = m.board.clock.base + m.board.clock.now
  rw [tends.base_eq, tends.now_eq]

/-- A machine without optional chips gets a real-time clock and an adapter in place; with the other
standard it is built anew and loses the clock, whose second has no cycles then. -/
theorem reconfigure_reaches_twice :
    let fitted : Config := { rtc := some {}, via := true }
    let rebuilt : Config := { standard := .ntsc, rtc := some { cyclesPerSecond := 0 } }
    Slow fitted ∧ Slow rebuilt ∧ ∃ m m' m'', new {} {} = .ok m ∧ Led Slow {} true m ∧
      m.reconfigure fitted = .ok m' ∧ m'.Reaches {} fitted ∧ m.InPlace fitted m'.board ∧
      m'.reconfigure rebuilt = .ok m'' ∧ m''.Reaches {} rebuilt ∧
      SameMemory m.board.devices m''.board.devices := by
  intro fitted rebuilt
  have first : Slow fitted := by decide
  have second : Slow rebuilt := by decide
  have slow : Slow {} := by decide
  obtain ⟨m, hnew, onTime, -⟩ := new_onTime {} slow
  have led : Led Slow {} true m := .new slow hnew
  obtain ⟨m', hfit, reached, memory, inPlace⟩ := reconfigure_reaches led first
  have same : m.config = {} := onTime.config_eq
  obtain ⟨-, -, touched⟩ := inPlace (by rw [same]) (by rw [same])
  obtain ⟨m'', hbuild, reached', memory', -⟩ :=
    reconfigure_reaches (led.reconfigure first hfit) second
  exact ⟨first, second, m, m', m'', hnew, led, hfit, reached, touched, hbuild, reached',
    memory'.ram.trans memory.ram, memory'.colours.trans memory.colours,
    memory'.roms.trans memory.roms⟩

end C64.Machine
