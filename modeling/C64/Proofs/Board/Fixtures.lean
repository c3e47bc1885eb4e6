import C64.Proofs.Board.Making

/-!
# What is fitted to a board

The ROMs of a board and its optional chips are fitted from outside: no access of the processor
(`Devices.Accessed`), no passing of time and no reset changes which of them are there
(`fixtures_simulates`). The same holds of what a user holds down (`controls_simulates`). Fitting a
chip or taking one off leaves the rest of the board alone, apart from alarms of that chip
(`Refitted`).
-/

namespace C64.Board

open Clock

/-- What is fitted to a board. -/
structure Fixtures where
  roms : Roms
  via : Bool
  rtc : Bool

def Devices.fixtures (d : Devices) : Fixtures := ⟨d.memory.roms, d.via.isSome, d.rtc.isSome⟩

/-- The keys and switches that a user holds. -/
structure Controls where
  keyboard : Keyboard
  joystick1 : Joystick
  joystick2 : Joystick

def Devices.controls (d : Devices) : Controls := ⟨d.keyboard, d.joystick1, d.joystick2⟩

variable {standard : VideoStandard} {cia : Cia.Config} {b b' : Board}

theorem Devices.fixtures_congr {d d' : Devices} (roms : d'.memory.roms = d.memory.roms)
    (via : d'.via.isSome = d.via.isSome) (rtc : d'.rtc.isSome = d.rtc.isSome) :
    d'.fixtures = d.fixtures := by
  simp only [Devices.fixtures, roms, via, rtc]

/-! ## Accesses -/

/-- What an access of the processor leaves alone, whatever it does to the chips. -/
structure Devices.Accessed (d d' : Devices) : Prop where
  roms : d'.memory.roms = d.memory.roms
  standard : d'.vic.standard = d.vic.standard
  cache : d'.vic.cache = d.vic.cache
  rasterLine : d'.vic.rasterLine = d.vic.rasterLine
  frame : d'.vic.frame = d.vic.frame
  via : d'.via.isSome = d.via.isSome
  rtc : d'.rtc.isSome = d.rtc.isSome
  frameComplete : d'.frameComplete = d.frameComplete
  controls : d'.controls = d.controls

theorem Devices.Accessed.ports (d : Devices) (cia1 cia2 : Cia) (lastValue : UInt8) :
    d.Accessed { d with cia1, cia2, lastValue } :=
  ⟨rfl, rfl, rfl, rfl, rfl, rfl, rfl, rfl, rfl⟩

theorem Devices.Accessed.fixtures {d d' : Devices} (h : d.Accessed d') :
    d'.fixtures = d.fixtures :=
  fixtures_congr h.roms h.via h.rtc

theorem readChip_accessed (b : Board) (address : UInt16) :
    b.devices.Accessed (b.readChip address).2.devices := by
  unfold readChip
  simp only []
  split
  · unfold Vic.read
    simp only []
    split <;> exact ⟨rfl, rfl, rfl, rfl, rfl, rfl, rfl, rfl, rfl⟩
  · exact .ports ..
  · exact .ports ..
  · split
    · next fitted => exact ⟨rfl, rfl, rfl, rfl, rfl, by rw [fitted]; rfl, rfl, rfl, rfl⟩
    · exact .ports ..
  all_goals exact .ports ..

theorem read_accessed (b : Board) (address : UInt16) :
    b.devices.Accessed (b.read address).2.devices := by
  unfold read
  simp only []
  split
  · have chip := b.readChip_accessed address
    exact ⟨chip.roms, chip.standard, chip.cache, chip.rasterLine, chip.frame, chip.via, chip.rtc,
      chip.frameComplete, chip.controls⟩
  · exact .ports ..

theorem read_memory (b : Board) (address : UInt16) :
    (b.read address).2.devices.memory = b.devices.memory := by
  have chip : (b.readChip address).2.devices.memory = b.devices.memory := by
    unfold readChip
    simp only []
    repeat' split
    all_goals rfl
  unfold read
  simp only []
  split
  · exact chip
  · rfl

theorem writeChip_accessed {address : UInt16} {value : UInt8}
    (hrun : b.writeChip address value = .ok b') : b.devices.Accessed b'.devices := by
  obtain ⟨d, clock⟩ := b
  unfold writeChip at hrun
  simp only [] at hrun
  split at hrun
  · cases hrun
    unfold Vic.write
    simp only []
    split <;> exact ⟨rfl, rfl, rfl, rfl, rfl, rfl, rfl, rfl, rfl⟩
  · cases hrun
    exact .ports ..
  · cases hrun
    exact ⟨rfl, rfl, rfl, rfl, rfl, rfl, rfl, rfl, rfl⟩
  · obtain ⟨⟨cia1, clock₁⟩, -, hret⟩ := bind_eq_ok.mp hrun
    cases hret
    exact .ports ..
  · obtain ⟨⟨cia2, clock₁⟩, -, hret⟩ := bind_eq_ok.mp hrun
    cases hret
    exact .ports ..
  · split at hrun
    · next fitted =>
      cases hrun
      exact ⟨rfl, rfl, rfl, rfl, rfl, rfl, by rw [fitted]; rfl, rfl, rfl⟩
    · cases hrun
      exact .ports ..
  · split at hrun
    · next fitted =>
      obtain ⟨⟨via, clock₁⟩, -, hret⟩ := bind_eq_ok.mp hrun
      cases hret
      exact ⟨rfl, rfl, rfl, rfl, rfl, by rw [fitted]; rfl, rfl, rfl, rfl⟩
    · cases hrun
      exact .ports ..

theorem write_roms (m : Memory) (address : UInt16) (value : UInt8) :
    (m.write address value).roms = m.roms := by
  unfold Memory.write Memory.poke
  split
  · rfl
  · split <;> rfl

theorem write_accessed {address : UInt16} {value : UInt8}
    (hrun : b.write address value = .ok b') : b.devices.Accessed b'.devices := by
  obtain ⟨⟨memory, vic, cia1, cia2, via, rtc, keyboard, joystick1, joystick2, lastValue, rtcLines,
    frameComplete⟩, clock⟩ := b
  unfold write at hrun
  simp only [] at hrun
  split at hrun
  · have chip := writeChip_accessed hrun
    exact ⟨chip.roms, chip.standard, chip.cache, chip.rasterLine, chip.frame, chip.via, chip.rtc,
      chip.frameComplete, chip.controls⟩
  · cases hrun
    exact ⟨write_roms .., rfl, rfl, rfl, rfl, rfl, rfl, rfl, rfl⟩

/-! ## Time -/

theorem Devices.expire_fixtures (d : Devices) (bank : Fin 4) (e : Event) :
    (d.expire bank e).memory = d.memory ∧ (d.expire bank e).fixtures = d.fixtures := by
  cases e with
  | cia1 e => exact ⟨rfl, rfl⟩
  | cia2 e => exact ⟨rfl, rfl⟩
  | via e => exact ⟨rfl, fixtures_congr rfl Option.isSome_map rfl⟩
  | rtc e => cases e; exact ⟨rfl, fixtures_congr rfl rfl Option.isSome_map⟩
  | rasterLine =>
    show (d.closeLine bank).memory = d.memory ∧ (d.closeLine bank).fixtures = d.fixtures
    unfold closeLine
    split <;> exact ⟨rfl, rfl⟩

theorem Devices.expire_controls (d : Devices) (bank : Fin 4) (e : Event) :
    (d.expire bank e).controls = d.controls := by
  cases e with
  | cia1 e => rfl
  | cia2 e => rfl
  | via e => rfl
  | rtc e => cases e; rfl
  | rasterLine =>
    show (d.closeLine bank).controls = d.controls
    unfold closeLine
    split <;> rfl

/-- What every alarm keeps of the devices, the passing of time keeps. -/
theorem Sound.tick_keeps (h : b.Sound) {P : Devices → Prop} {cycles : Nat}
    (expire : ∀ {d : Devices} (e : Event), P d → P (d.expire b.devices.bank e))
    (holds : P b.devices) (hrun : b.tick cycles = .ok b') : P b'.devices := by
  obtain ⟨d, clock⟩ := b
  obtain ⟨⟨clock', d'⟩, hadvance, hret⟩ := bind_eq_ok.mp hrun
  cases hret
  have lawful : Handler.Lawful (fire d.bank) P := by
    intro alarm c d₁ c' d₂ reach holds hfire
    obtain ⟨hset, rfl⟩ := fire_ok hfire
    exact ⟨reach.setAgain hset, expire alarm.event holds⟩
  exact (h.clock.advanceWithin lawful holds hadvance).2

theorem Sound.tick_fixtures (h : b.Sound) {cycles : Nat} (hrun : b.tick cycles = .ok b') :
    b'.devices.memory = b.devices.memory ∧ b'.devices.fixtures = b.devices.fixtures := by
  refine h.tick_keeps (P := fun d => d.memory = b.devices.memory ∧
    d.fixtures = b.devices.fixtures) (fun {d} e same => ?_) ⟨rfl, rfl⟩ hrun
  obtain ⟨memory, fixtures⟩ := d.expire_fixtures b.devices.bank e
  exact ⟨memory.trans same.1, fixtures.trans same.2⟩

theorem Sound.tick_controls (h : b.Sound) {cycles : Nat} (hrun : b.tick cycles = .ok b') :
    b'.devices.controls = b.devices.controls :=
  h.tick_keeps (P := fun d => d.controls = b.devices.controls)
    (fun {d} e same => (d.expire_controls b.devices.bank e).trans same) rfl hrun

theorem reset_fixtures (hrun : b.reset = .ok b') : b'.devices.fixtures = b.devices.fixtures := by
  obtain ⟨cia1, cia2, clock₁, clock₂, due, clock₃, -, -, -, rfl⟩ := reset_ok hrun
  refine Devices.fixtures_congr rfl ?_ Option.isSome_map
  cases b.devices.via <;> rfl

theorem reset_controls (hrun : b.reset = .ok b') : b'.devices.controls = b.devices.controls := by
  obtain ⟨cia1, cia2, clock₁, clock₂, due, clock₃, -, -, -, rfl⟩ := reset_ok hrun
  rfl

/-- A processor keeps of a board whatever its accesses and the passing of time keep. -/
theorem access_simulates {P : Devices → Prop}
    (access : ∀ {d d' : Devices}, d.Accessed d' → P d → P d')
    (tick : ∀ {b b' : Board} {cycles : Nat}, b.Sound → P b.devices → b.tick cycles = .ok b' →
      P b'.devices) :
    Bus.Simulates True fun b b' : Board => b = b' ∧ b.Fit standard cia ∧ P b.devices where
  read := by
    rintro b _ ⟨rfl, fit, holds⟩ address
    exact ⟨rfl, rfl, fit.read address, access (b.read_accessed address) holds⟩
  write := by
    rintro b _ ⟨rfl, fit, holds⟩ address value
    exact .self fun _ hrun => ⟨rfl, fit.write hrun, access (write_accessed hrun) holds⟩
  tick := by
    rintro b _ ⟨rfl, fit, holds⟩ n -
    exact .self fun _ hrun => ⟨rfl, fit.tick hrun, tick fit.sound holds hrun⟩
  lines := by
    rintro b _ ⟨rfl, -⟩
    rfl

/-- Whatever a processor does with a board, the same things stay fitted. -/
theorem fixtures_simulates (fixtures : Fixtures) :
    Bus.Simulates True fun b b' : Board =>
      b = b' ∧ b.Fit standard cia ∧ b.devices.fixtures = fixtures :=
  access_simulates (fun accessed same => accessed.fixtures.trans same)
    fun sound same hrun => (sound.tick_fixtures hrun).2.trans same

/-- Whatever a processor does with a board, the user holds what they hold. -/
theorem controls_simulates (controls : Controls) :
    Bus.Simulates True fun b b' : Board =>
      b = b' ∧ b.Fit standard cia ∧ b.devices.controls = controls :=
  access_simulates (fun accessed same => accessed.controls.trans same)
    fun sound same hrun => (sound.tick_controls hrun).trans same

/-- The reset sequence of a processor writes nothing. -/
theorem Sound.cpu_reset_memory (h : b.Sound) {cpu cpu' : Cpu}
    (hrun : cpu.reset b = .ok (cpu', b')) : b'.devices.memory = b.devices.memory := by
  obtain ⟨between, htick, hret⟩ := bind_eq_ok.mp hrun
  cases hret
  have low := b.read_memory Cpu.resetVector
  have high := (b.read Cpu.resetVector).2.read_memory (Cpu.resetVector + 1)
  have sound := (h.read Cpu.resetVector).read (Cpu.resetVector + 1)
  exact ((sound.tick_fixtures htick).1.trans high).trans low

/-! ## Fitting and taking off -/

/-- Chips were fitted or taken off: nothing else of the devices moved, and of the alarms those of
such a chip at most. -/
structure Refitted (own : Event → Prop) (b b' : Board) : Prop where
  devices : ∃ via rtc rtcLines, b'.devices = { b.devices with via, rtc, rtcLines }
  tends : Tends own b.clock b'.clock

theorem Refitted.refl {own : Event → Prop} (b : Board) : Refitted own b b :=
  ⟨⟨_, _, _, rfl⟩, .refl _⟩

theorem Refitted.trans {own : Event → Prop} {b₁ b₂ b₃ : Board} (h : Refitted own b₁ b₂)
    (h' : Refitted own b₂ b₃) : Refitted own b₁ b₃ := by
  obtain ⟨via, rtc, rtcLines, devices⟩ := h.devices
  obtain ⟨via', rtc', rtcLines', devices'⟩ := h'.devices
  exact ⟨⟨via', rtc', rtcLines', by rw [devices', devices]⟩, h.tends.trans h'.tends⟩

theorem Refitted.mono {own own' : Event → Prop} (h : Refitted own b b')
    (wider : ∀ e, own e → own' e) : Refitted own' b b' :=
  ⟨h.devices, h.tends.now_eq, h.tends.base_eq, h.tends.rebases_eq,
    fun e other => h.tends.dues e fun mine => other (wider e mine), h.tends.ahead⟩

theorem Refitted.controls {own : Event → Prop} (h : Refitted own b b') :
    b'.devices.controls = b.devices.controls := by
  obtain ⟨via, rtc, rtcLines, devices⟩ := h.devices
  rw [devices]
  rfl

theorem detachRtc_refitted (b : Board) :
    Refitted (· = .rtc .tick) b b.detachRtc ∧ b.detachRtc.devices.via = b.devices.via ∧
      b.detachRtc.devices.rtc = none := by
  unfold detachRtc
  split
  · exact ⟨⟨⟨_, _, _, rfl⟩, .cancel _ rfl⟩, rfl, rfl⟩
  · next missing => exact ⟨.refl b, rfl, by simpa using missing⟩

/-- A clock is fitted where its configuration is right; otherwise the answer says what is wrong. -/
theorem attachRtc_refitted {config : Rtc.Config} {error : Option Rtc.ConfigError}
    (hrun : b.attachRtc config = .ok (error, b')) :
    Refitted (· = .rtc .tick) b b' ∧ b'.devices.via = b.devices.via ∧
      error = config.error? ∧ b'.devices.rtc.isSome = config.error?.isNone := by
  obtain ⟨detached, via, none⟩ := b.detachRtc_refitted
  obtain ⟨built, hnew, hret⟩ := bind_eq_ok.mp hrun
  unfold Rtc.new at hnew
  cases herror : config.error? with
  | some e =>
    rw [herror] at hnew
    cases hnew
    cases hret
    exact ⟨detached, via, rfl, by rw [none]; rfl⟩
  | none =>
    rw [herror] at hnew
    obtain ⟨⟨due, clock⟩, hset, hfit⟩ := bind_eq_ok.mp hnew
    cases hfit
    cases hret
    have pos := Rtc.Config.one_le_rate herror
    exact ⟨detached.trans ⟨⟨_, _, _, rfl⟩, .setAlarmIn rfl pos hset⟩, via, rfl, rfl⟩

/-- An interface adapter that is to stay stays as it is. -/
theorem fitVia_refitted (b : Board) (on : Bool) :
    let b' := if on then b.attachVia else b.detachVia
    Refitted (fun e => Via.Owns Event.via e ∧ on = false) b b' ∧
      (b'.devices.rtc = b.devices.rtc ∧ b'.devices.rtcLines = b.devices.rtcLines) ∧
      b'.devices.via.isSome = on ∧ ∀ via ∈ b.devices.via, on = true → via ∈ b'.devices.via := by
  cases on with
  | true =>
    simp only [if_true, attachVia]
    split
    · next fitted => exact ⟨.refl b, ⟨rfl, rfl⟩, fitted, fun _ hvia _ => hvia⟩
    · next missing =>
      refine ⟨⟨⟨_, _, _, rfl⟩, .refl _⟩, ⟨rfl, rfl⟩, rfl, fun via hvia _ => ?_⟩
      exact absurd (Option.isSome_of_mem hvia) missing
  | false =>
    simp only [Bool.false_eq_true, if_false, detachVia]
    split
    · have moved := Via.reset_tends Event.via b.clock
      have off : Refitted (Via.Owns Event.via) b
          ⟨{ b.devices with via := none }, (Via.reset Event.via b.clock).2⟩ :=
        ⟨⟨_, _, _, rfl⟩, moved⟩
      exact ⟨off.mono fun _ mine => ⟨mine, trivial⟩, ⟨rfl, rfl⟩, rfl, fun _ _ on => absurd on (by simp)⟩
    · next missing =>
      exact ⟨.refl b, ⟨rfl, rfl⟩, by simpa using missing, fun _ _ on => absurd on (by simp)⟩

end C64.Board
