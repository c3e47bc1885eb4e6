import C64.Proofs.Board.Fixtures
import C64.Proofs.Machine.Completion

/-!
# Machines as they are configured

A host that keeps its hands off the board leads a machine from power-on by instructions, frames,
resets and changes of the configuration (`Led`). On the board of such a machine stands what the
configuration asks for, and of a real-time clock only one that can be built (`Led.furnished`).

A change of the configuration fits a real-time clock only where its configuration changes or a new
board is built, and reports what went wrong in that call. A configuration that failed before and is
put into force again is not tried again, and its error is no longer listed
(`missing_clock_explained`).
-/

namespace C64.Machine

open Raster Clock

/-! ## What a configuration asks for -/

/-- What is wrong with the real-time clock that is to be fitted. -/
def Config.clockError? (config : Config) : Option Rtc.ConfigError :=
  config.rtc.bind Rtc.Config.error?

/-- Whether there is a real-time clock to be fitted that can be built. -/
def Config.hasClock (config : Config) : Bool := config.rtc.any fun rtc => rtc.error?.isNone

/-- What is to stand on a board. -/
def Config.fixtures (config : Config) (roms : Roms) : Board.Fixtures :=
  ⟨roms, config.via, config.hasClock⟩

theorem Config.hasClock_iff {config : Config} : config.hasClock = true ↔
    ∃ rtc ∈ config.rtc, rtc.cyclesPerSecond ≠ 0 ∧ rtc.start.error? = none := by
  unfold hasClock
  cases config.rtc with
  | none => simp
  | some rtc =>
    simp only [Option.any_some, Option.isNone_iff_eq_none, Option.mem_some_iff, exists_eq_left',
      Rtc.Config.error?]
    split <;> simp_all

variable {m m' : Machine} {config : Config} {images : RomImages} {board : Board}
  {errors : List ConfigError} {roms : Roms}

theorem buildBoard_ok {memory : Memory} (hrun : buildBoard memory config = .ok (board, errors)) :
    board.devices.memory = memory ∧ board.devices.fixtures = config.fixtures memory.roms ∧
      errors = config.cia.2 ++ (config.clockError?.map ConfigError.rtc).toList := by
  have adapter : ∀ (b : Board) (rtc : Bool), b.devices.memory = memory →
      b.devices.via = none → b.devices.rtc.isSome = rtc →
      (if config.via then b.attachVia else b).devices.memory = memory ∧
        (if config.via then b.attachVia else b).devices.fixtures =
          ⟨memory.roms, config.via, rtc⟩ := by
    rintro b rtc rfl none rfl
    unfold Board.attachVia
    cases config.via <;> simp [Board.Devices.fixtures, none]
  unfold buildBoard at hrun
  simp only [] at hrun
  obtain ⟨b₁, hnew, hrun⟩ := bind_eq_ok.mp hrun
  obtain ⟨memory_eq, noVia, noRtc⟩ : b₁.devices.memory = memory ∧ b₁.devices.via = none ∧
      b₁.devices.rtc = none := by
    obtain ⟨⟨cia1, clock₁⟩, -, h⟩ := bind_eq_ok.mp hnew
    obtain ⟨⟨cia2, clock₂⟩, -, h⟩ := bind_eq_ok.mp h
    obtain ⟨⟨due, clock₃⟩, -, h⟩ := bind_eq_ok.mp h
    cases h
    exact ⟨rfl, rfl, rfl⟩
  unfold Config.clockError? Config.fixtures Config.hasClock
  split at hrun
  · next rtc hrtc =>
    obtain ⟨⟨error, b₂⟩, hattach, hret⟩ := bind_eq_ok.mp hrun
    cases hret
    obtain ⟨⟨⟨_, _, _, devices⟩, -⟩, via, rfl, fitted⟩ := Board.attachRtc_refitted hattach
    obtain ⟨same, fixtures⟩ :=
      adapter b₂ _ (by rw [devices]; exact memory_eq) (via.trans noVia) fitted
    exact ⟨same, by rw [fixtures, hrtc]; rfl, by rw [hrtc]; rfl⟩
  · next hrtc =>
    cases hrun
    obtain ⟨same, fixtures⟩ := adapter b₁ _ memory_eq noVia (congrArg Option.isSome noRtc)
    exact ⟨same, by rw [fixtures, hrtc]; rfl, by rw [hrtc]; rfl⟩

/-! ## What a change leaves alone -/

def Rebuilds (m : Machine) (config : Config) : Prop :=
  config.standard ≠ m.config.standard ∨ config.todHz ≠ m.config.todHz

instance (m : Machine) (config : Config) : Decidable (m.Rebuilds config) :=
  inferInstanceAs (Decidable (_ ∨ _))

def configured (m : Machine) (config : Config) (board : Board) (errors : List ConfigError) :
    Machine :=
  { m with cpu := { m.cpu with config := config.cpu }, board, config, errors }

theorem reconfigure_of_rebuilds (h : m.Rebuilds config) :
    m.reconfigure config = (do
      let (board, errors) ← buildBoard m.board.devices.memory.reset config
      (m.configured config board errors).resetCpu) := by
  unfold Rebuilds at h
  unfold reconfigure
  simp only [if_pos h]
  rfl

theorem reconfigure_in_place (h : ¬m.Rebuilds config) :
    m.reconfigure config = do
      let (board, errors) ← m.refit config
      return m.configured config board errors := by
  unfold Rebuilds at h
  unfold reconfigure
  simp only [if_neg h]
  rfl

theorem reconfigure_config (hrun : m.reconfigure config = .ok m') : m'.config = config := by
  by_cases rebuild : m.Rebuilds config
  · rw [reconfigure_of_rebuilds rebuild] at hrun
    obtain ⟨⟨board, errors⟩, -, hcpu⟩ := bind_eq_ok.mp hrun
    obtain ⟨⟨cpu, board'⟩, -, hret⟩ := bind_eq_ok.mp hcpu
    cases hret
    rfl
  · rw [reconfigure_in_place rebuild] at hrun
    obtain ⟨⟨board, errors⟩, -, hret⟩ := bind_eq_ok.mp hrun
    cases hret
    rfl

/-- Whether the real-time clock of a configuration is tried when it is put into force. -/
def TriesClock (m : Machine) (config : Config) : Prop :=
  m.Rebuilds config ∨ config.rtc ≠ m.config.rtc

instance (m : Machine) (config : Config) : Decidable (m.TriesClock config) :=
  inferInstanceAs (Decidable (_ ∨ _))

/-- The alarms that come and go with the chips of a configuration. -/
def Moves (m : Machine) (config : Config) (e : Board.Event) : Prop :=
  (e = .rtc .tick ∧ config.rtc ≠ m.config.rtc) ∨ (Via.Owns Board.Event.via e ∧ config.via = false)

/-- What a configuration leaves alone that needs no new board. -/
structure InPlace (m : Machine) (config : Config) (board : Board) : Prop where
  refitted : Board.Refitted (m.Moves config) m.board board
  via : ∀ via ∈ m.board.devices.via, config.via = true → via ∈ board.devices.via
  rtc : config.rtc = m.config.rtc → board.devices.rtc = m.board.devices.rtc ∧
    board.devices.rtcLines = m.board.devices.rtcLines

/-- What became of the real-time clock when the chips are fitted in place. -/
structure Clocked (m : Machine) (config : Config) (error : Option Rtc.ConfigError) (b : Board) :
    Prop where
  refitted :
    Board.Refitted (fun e => e = .rtc .tick ∧ config.rtc ≠ m.config.rtc) m.board b
  via : b.devices.via = m.board.devices.via
  fitted : b.devices.rtc.isSome = config.hasClock
  error : error = if config.rtc = m.config.rtc then none else config.clockError?
  kept : config.rtc = m.config.rtc → b = m.board

theorem Clocked.fitVia {error : Option Rtc.ConfigError} {b : Board} (h : m.Clocked config error b)
    (fitted : m.board.devices.fixtures = m.config.fixtures roms) :
    m.InPlace config (if config.via then b.attachVia else b.detachVia) ∧
      Board.Devices.fixtures (if config.via then b.attachVia else b.detachVia).devices =
        config.fixtures roms := by
  obtain ⟨refitted, ⟨rtc_eq, lines_eq⟩, on, stays⟩ := b.fitVia_refitted config.via
  refine ⟨⟨?_, ?_, ?_⟩, ?_⟩
  · exact (h.refitted.mono fun _ => .inl).trans (refitted.mono fun _ => .inr)
  · rw [← h.via]
    exact stays
  · intro same
    obtain rfl := h.kept same
    exact ⟨rtc_eq, lines_eq⟩
  · obtain ⟨_, _, _, devices⟩ := h.refitted.devices
    obtain ⟨_, _, _, devices'⟩ := refitted.devices
    have roms_eq : b.devices.memory.roms = roms := by
      rw [devices]
      exact congrArg Board.Fixtures.roms fitted
    simp only [Board.Devices.fixtures, Config.fixtures, on, rtc_eq, h.fitted]
    rw [devices']
    simp only [roms_eq]

theorem refit_ok (fitted : m.board.devices.fixtures = m.config.fixtures roms)
    (hrun : m.refit config = .ok (board, errors)) :
    m.InPlace config board ∧ board.devices.fixtures = config.fixtures roms ∧
      errors = ((if config.rtc = m.config.rtc then none else config.clockError?).map
        ConfigError.rtc).toList := by
  -- The adapter is fitted behind the clock, whatever became of that.
  suffices clocked : ∃ error b, m.Clocked config error b ∧
      board = (if config.via then b.attachVia else b.detachVia) ∧
      errors = (error.map ConfigError.rtc).toList by
    obtain ⟨error, b, clocked, rfl, rfl⟩ := clocked
    obtain ⟨inPlace, fixtures⟩ := clocked.fitVia fitted
    exact ⟨inPlace, fixtures, by rw [clocked.error]⟩
  unfold Machine.refit at hrun
  simp only [] at hrun
  split at hrun
  · next same =>
    cases hrun
    refine ⟨none, m.board, ⟨.refl _, rfl, ?_, by rw [if_pos same], fun _ => rfl⟩, rfl, rfl⟩
    rw [show m.board.devices.rtc.isSome = _ from congrArg Board.Fixtures.rtc fitted]
    simp only [Config.fixtures, Config.hasClock, same]
  · next differs =>
    have known : ∀ {error b}, Board.Refitted (· = .rtc .tick) m.board b →
        b.devices.via = m.board.devices.via → b.devices.rtc.isSome = config.hasClock →
        error = config.clockError? → m.Clocked config error b := fun refitted via found error_eq =>
      ⟨refitted.mono fun _ mine => ⟨mine, differs⟩, via, found,
        error_eq.trans (if_neg differs).symm, fun same => absurd same differs⟩
    split at hrun
    · next rtc hrtc =>
      obtain ⟨⟨error, b⟩, hattach, hret⟩ := bind_eq_ok.mp hrun
      cases hret
      obtain ⟨refitted, via, error_eq, found⟩ := Board.attachRtc_refitted hattach
      refine ⟨error, b, known refitted via ?_ ?_, rfl, rfl⟩
      · rw [found, Config.hasClock, hrtc]
        rfl
      · rw [error_eq, Config.clockError?, hrtc]
        rfl
    · next hrtc =>
      cases hrun
      obtain ⟨refitted, via, empty⟩ := m.board.detachRtc_refitted
      refine ⟨none, _, known refitted via ?_ ?_, rfl, rfl⟩
      · rw [empty, Config.hasClock, hrtc]
        rfl
      · rw [Config.clockError?, hrtc]
        rfl

/-! ## Running -/

structure SameSetUp (m m' : Machine) : Prop where
  config : m'.config = m.config
  errors : m'.errors = m.errors
  fixtures : m'.board.devices.fixtures = m.board.devices.fixtures

theorem SameSetUp.trans {m₁ m₂ m₃ : Machine} (h : m₁.SameSetUp m₂) (h' : m₂.SameSetUp m₃) :
    m₁.SameSetUp m₃ :=
  ⟨h'.config.trans h.config, h'.errors.trans h.errors, h'.fixtures.trans h.fixtures⟩

theorem applyInput_setUp (m : Machine) : m.SameSetUp m.applyInput := by
  obtain ⟨keyboard, joystick1, joystick2, heq⟩ := m.applyInput_eq
  rw [heq]
  exact ⟨rfl, rfl, rfl⟩

theorem Sound.resetCpu_setUp (h : m.Sound) (hrun : m.resetCpu = .ok m') : m.SameSetUp m' := by
  obtain ⟨⟨cpu, board⟩, hreset, hret⟩ := bind_eq_ok.mp hrun
  cases hret
  exact ⟨rfl, rfl, (Cpu.reset_keeps (Board.fixtures_simulates _) ⟨h.board, rfl⟩ hreset).2⟩

theorem Sound.ready_setUp (h : m.Sound) (hrun : m.ready = .ok m') :
    m'.Sound ∧ m.SameSetUp m' := by
  unfold Machine.ready at hrun
  split at hrun
  · refine ⟨h.applyInput.reset hrun, m.applyInput_setUp.trans ?_⟩
    obtain ⟨board, hreset, hcpu⟩ := bind_eq_ok.mp hrun
    have sound : Sound { m.applyInput with board, resetRequested := false } :=
      ⟨h.applyInput.board.reset hreset, h.applyInput.cpu⟩
    have reset : m.applyInput.SameSetUp { m.applyInput with board, resetRequested := false } :=
      ⟨rfl, rfl, Board.reset_fixtures hreset⟩
    exact reset.trans (sound.resetCpu_setUp hcpu)
  · cases hrun
    exact ⟨h.applyInput, m.applyInput_setUp⟩

theorem Sound.step_setUp (h : m.Sound) {n : Nat} (hrun : m.step = .ok (n, m')) :
    m.SameSetUp m' := by
  rw [step_eq] at hrun
  obtain ⟨m₁, hready, hrun⟩ := bind_eq_ok.mp hrun
  obtain ⟨⟨n', cpu, board⟩, hstep, hret⟩ := bind_eq_ok.mp hrun
  cases hret
  obtain ⟨sound, ready⟩ := h.ready_setUp hready
  exact ready.trans
    ⟨rfl, rfl, (Cpu.step_keeps (Board.fixtures_simulates _) ⟨sound.board, rfl⟩ hstep).2⟩

theorem Sound.stepUntilFrame_setUp (h : m.Sound) {budget : Nat} {complete : Bool}
    (hrun : m.stepUntilFrame budget = .ok (complete, m')) : m.SameSetUp m' := by
  rcases h.stepUntilFrame_leads (fun sound same hstep => same.trans (sound.step_setUp hstep))
    (fun same _ => same) (show m.SameSetUp m from ⟨rfl, rfl, rfl⟩) hrun with
    ⟨-, m₁, same, rfl⟩ | ⟨-, m₁, same, -, rfl⟩
  · exact same.trans ⟨rfl, rfl, rfl⟩
  · exact same.trans ⟨rfl, rfl, rfl⟩

theorem Sound.runFrame_setUp (h : m.Sound) {σ : Type} [FrameSink σ] {sink sink' : σ}
    {report : FrameReport} (hrun : m.runFrame sink = .ok (report, m', sink')) :
    m.SameSetUp m' := by
  obtain ⟨m₁, budget, hframe, delivered, -⟩ := runFrame_ok hrun
  have asked : m.SameSetUp (m.asked (FrameSink.takeRefresh sink).1) := by
    unfold Machine.asked
    split <;> exact ⟨rfl, rfl, rfl⟩
  have ran := asked.trans ((h.asked _).stepUntilFrame_setUp hframe)
  rcases delivered with rfl | rfl
  · exact ran
  · exact ran.trans ⟨rfl, rfl, rfl⟩

/-! ## Machines that a host leads -/

/-- The machines that a host leads from power-on without a hand on the board, with configurations of
which something is true. The flag says whether the real-time clock was tried when the configuration
in force was put into force the last time. -/
inductive Led (Allowed : Config → Prop) (images : RomImages) : Bool → Machine → Prop
  | new {config : Config} {m : Machine} : Allowed config → new config images = .ok m →
      Led Allowed images true m
  | reconfigure {tried : Bool} {config : Config} {m m' : Machine} : Led Allowed images tried m →
      Allowed config → m.reconfigure config = .ok m' →
      Led Allowed images (m.TriesClock config) m'
  | step {tried : Bool} {n : Nat} {m m' : Machine} : Led Allowed images tried m →
      m.step = .ok (n, m') → Led Allowed images tried m'
  | runFrame {tried : Bool} {m m' : Machine} {σ : Type} [FrameSink σ] {sink sink' : σ}
      {report : FrameReport} : Led Allowed images tried m →
      m.runFrame sink = .ok (report, m', sink') → Led Allowed images tried m'
  | requestStop {tried : Bool} {m : Machine} : Led Allowed images tried m →
      Led Allowed images tried m.requestStop
  | requestReset {tried : Bool} {m : Machine} : Led Allowed images tried m →
      Led Allowed images tried m.requestReset
  | send {tried : Bool} {m : Machine} (e : InputEvent) : Led Allowed images tried m →
      Led Allowed images tried (m.send e)
  | load {tried : Bool} {m : Machine} (address : UInt16) (bytes : List UInt8) :
      Led Allowed images tried m → Led Allowed images tried (m.load address bytes)

/-- What the configuration asks for is fitted, and the error of a real-time clock is listed if it
was tried. -/
structure Furnished (images : RomImages) (tried : Bool) (m : Machine) : Prop where
  sound : m.Sound
  fixtures : m.board.devices.fixtures = m.config.fixtures (Roms.ofImages images).1
  errors : ∀ e, .rtc e ∈ m.errors ↔ tried = true ∧ m.config.clockError? = some e

variable {Allowed : Config → Prop} {tried : Bool}

theorem Furnished.kept (h : m.Furnished images tried) (sound : m'.Sound) (same : m.SameSetUp m') :
    m'.Furnished images tried :=
  ⟨sound, by rw [same.fixtures, same.config]; exact h.fixtures,
    by rw [same.errors, same.config]; exact h.errors⟩

/-- Neither the adapters nor the ROMs report an error of the real-time clock. -/
theorem Config.rtc_mem_errors (config : Config) (e : Rtc.ConfigError) :
    (.rtc e ∈ config.cia.2 ++ (config.clockError?.map ConfigError.rtc).toList) ↔
      config.clockError? = some e := by
  unfold Config.cia
  simp only []
  split <;> cases config.clockError? <;> simp [eq_comm]

theorem Furnished.new (hrun : Machine.new config images = .ok m) : m.Furnished images true := by
  have sound := Sound.new hrun
  unfold Machine.new at hrun
  simp only [] at hrun
  obtain ⟨⟨board, errors⟩, hbuild, hcpu⟩ := bind_eq_ok.mp hrun
  obtain ⟨-, fixtures, rfl⟩ := buildBoard_ok hbuild
  obtain ⟨m₀, h₀, rfl, rfl, built, reported⟩ : ∃ m₀ : Machine, m₀.resetCpu = .ok m ∧
      m₀.board = board ∧ m₀.config = config ∧ m₀.Sound ∧
      ∀ e, .rtc e ∈ m₀.errors ↔ config.clockError? = some e := by
    refine ⟨_, hcpu, rfl, rfl, ⟨buildBoard_fit hbuild, rfl⟩, fun e => ?_⟩
    rw [List.mem_append, config.rtc_mem_errors]
    simp
  refine Furnished.kept ⟨built, fixtures, fun e => ?_⟩ sound (built.resetCpu_setUp h₀)
  simp only [true_and, reported]

theorem Furnished.reconfigure (h : m.Furnished images tried)
    (hrun : m.reconfigure config = .ok m') : m'.Furnished images (m.TriesClock config) := by
  have sound := h.sound.reconfigure hrun
  by_cases rebuild : m.Rebuilds config
  · rw [reconfigure_of_rebuilds rebuild] at hrun
    obtain ⟨⟨board, errors⟩, hboard, hcpu⟩ := bind_eq_ok.mp hrun
    obtain ⟨-, fixtures, rfl⟩ := buildBoard_ok hboard
    have tried : m.TriesClock config := .inl rebuild
    have built : ∀ errors, Sound (m.configured config board errors) :=
      fun _ => ⟨buildBoard_fit hboard, rfl⟩
    refine Furnished.kept ⟨built _, ?_, fun e => ?_⟩ sound ((built _).resetCpu_setUp hcpu)
    · exact fixtures.trans (congrArg _ (congrArg Board.Fixtures.roms h.fixtures))
    · simp only [tried, decide_true, true_and]
      exact config.rtc_mem_errors e
  · rw [reconfigure_in_place rebuild] at hrun
    obtain ⟨⟨board, errors⟩, hboard, hret⟩ := bind_eq_ok.mp hrun
    obtain ⟨-, fixtures, rfl⟩ := refit_ok h.fixtures hboard
    cases hret
    -- The errors of earlier configurations are gone, so an error is listed only if it is found anew.
    refine ⟨sound, fixtures, fun e => ?_⟩
    show _ ∈ Option.toList _ ↔ decide (m.TriesClock config) = true ∧ config.clockError? = some e
    unfold TriesClock
    by_cases same : config.rtc = m.config.rtc
    · simp [same, rebuild]
    · simp only [if_neg same]
      cases config.clockError? <;> simp [same, eq_comm]

/-- Every machine that a host leads is furnished as it is configured. -/
theorem Led.furnished (h : Led Allowed images tried m) : m.Furnished images tried := by
  induction h with
  | new _ hrun => exact .new hrun
  | reconfigure _ _ hrun ih => exact ih.reconfigure hrun
  | step _ hrun ih => exact ih.kept (ih.sound.step hrun) (ih.sound.step_setUp hrun)
  | runFrame _ hrun ih => exact ih.kept (ih.sound.runFrame hrun) (ih.sound.runFrame_setUp hrun)
  | requestStop _ ih => exact ih.kept ⟨ih.sound.board, ih.sound.cpu⟩ ⟨rfl, rfl, rfl⟩
  | requestReset _ ih => exact ih.kept ⟨ih.sound.board, ih.sound.cpu⟩ ⟨rfl, rfl, rfl⟩
  | send e _ ih => exact ih.kept ⟨ih.sound.board, ih.sound.cpu⟩ ⟨rfl, rfl, rfl⟩
  | load address bytes _ ih =>
    exact ih.kept (ih.sound.withDevices ih.sound.board.sound.devices.vic rfl rfl rfl rfl rfl)
      ⟨rfl, rfl, rfl⟩

/-! ## A missing clock -/

/-- A machine that is to have a real-time clock has it, or its configuration is wrong. What is wrong
is listed if the clock was tried when the configuration was put into force the last time: when the
machine was built, a new board was, or the configuration of the clock changed. -/
theorem missing_clock_explained (h : Led (fun _ => True) images tried m) {rtc : Rtc.Config}
    (wanted : m.config.rtc = some rtc) :
    m.board.devices.rtc.isSome = true ∧ rtc.error? = none ∨
      ∃ e, rtc.error? = some e ∧ (.rtc e ∈ m.errors ↔ tried = true) := by
  have furnished := h.furnished
  have fitted : m.board.devices.rtc.isSome = rtc.error?.isNone := by
    rw [show m.board.devices.rtc.isSome = _ from congrArg Board.Fixtures.rtc furnished.fixtures]
    simp only [Config.fixtures, Config.hasClock, wanted, Option.any_some]
  cases herror : rtc.error? with
  | none => exact .inl ⟨by rw [fitted, herror]; rfl, rfl⟩
  | some e =>
    refine .inr ⟨e, rfl, (furnished.errors e).trans ⟨And.left, fun tried => ⟨tried, ?_⟩⟩⟩
    rw [Config.clockError?, wanted]
    exact herror

/-- A configuration whose second has no cycles. -/
def stopped : Config := { rtc := some { cyclesPerSecond := 0 } }

theorem missing_clock_explained_stopped : ∃ m, new stopped {} = .ok m ∧
    Led (fun _ => True) {} true m ∧ m.config.rtc = some { cyclesPerSecond := 0 } ∧
    (m.board.devices.rtc.isSome = true ∧ Rtc.Config.error? { cyclesPerSecond := 0 } = none ∨
      ∃ e, Rtc.Config.error? { cyclesPerSecond := 0 } = some e ∧
        (.rtc e ∈ m.errors ↔ true = true)) := by
  have slow : ∀ rtc ∈ stopped.rtc, rtc.cyclesPerSecond ≤ Cycle.headroom := by decide
  obtain ⟨m, hnew, onTime, -⟩ := new_onTime {} slow
  have led : Led (fun _ => True) {} true m := .new trivial hnew
  have wanted : m.config.rtc = some { cyclesPerSecond := 0 } := by rw [onTime.config_eq]; rfl
  exact ⟨m, hnew, led, wanted, missing_clock_explained led wanted⟩

/-- A machine built to it lists the error. The same configuration put into force once more takes the
error off the list, and the clock is still missing. -/
theorem stopped_unexplained : ∃ m m', new stopped {} = .ok m ∧ m.reconfigure stopped = .ok m' ∧
    .rtc .zeroRate ∈ m.errors ∧ Led (fun _ => True) {} false m' ∧ m'.config.rtc.isSome = true ∧
    ¬(m'.board.devices.rtc.isSome = true ∨ ∃ e, .rtc e ∈ m'.errors) := by
  have slow : ∀ rtc ∈ stopped.rtc, rtc.cyclesPerSecond ≤ Cycle.headroom := by decide
  obtain ⟨m, hnew, onTime, -⟩ := new_onTime {} slow
  have led : Led (fun _ => True) {} true m := .new trivial hnew
  have same : m.config = stopped := onTime.config_eq
  have still : ¬m.TriesClock stopped := by simp [TriesClock, Rebuilds, same]
  obtain ⟨m', hagain⟩ : ∃ m', m.reconfigure stopped = .ok m' := by
    rw [reconfigure_in_place fun h => still (.inl h), refit, if_pos (by rw [same])]
    exact ⟨_, rfl⟩
  have led' := led.reconfigure trivial hagain
  rw [decide_eq_false still] at led'
  have same' : m'.config = stopped := reconfigure_config hagain
  refine ⟨m, m', hnew, hagain, ?_, led', by rw [same']; rfl, ?_⟩
  · refine (led.furnished.errors .zeroRate).mpr ⟨rfl, ?_⟩
    rw [same]
    rfl
  · rintro (fitted | ⟨e, listed⟩)
    · rw [show m'.board.devices.rtc.isSome = _ from
        congrArg Board.Fixtures.rtc led'.furnished.fixtures, same'] at fitted
      exact absurd fitted (by decide)
    · exact absurd ((led'.furnished.errors e).mp listed).1 Bool.false_ne_true

end C64.Machine
