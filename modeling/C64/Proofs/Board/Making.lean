import C64.Proofs.Board.Reachable
import C64.Proofs.Board.Scheduling
import C64.Proofs.Cpu.Simulation
import C64.Proofs.Vic.Lines

/-!
# What a board is made to

The video standard of a board and the configuration of its adapters are chosen when it is built and
stay (`Devices.MadeTo`), whatever the host does with the board (`Board.Worked`) and whatever a
processor does. `Board.Fit` joins that to what is known of every board between two operations.
-/

namespace C64.Board

open Clock

/-- The chips are made to a standard and a configuration. -/
structure Devices.MadeTo (standard : VideoStandard) (cia : Cia.Config) (d : Devices) : Prop where
  vic : d.vic.standard = standard
  cia1 : d.cia1.config = cia
  cia2 : d.cia2.config = cia

/-- What the host can do with a board between two instructions. -/
inductive Worked : Board → Board → Prop where
  | attachRtc {b b' : Board} {config : Rtc.Config} {error : Option Rtc.ConfigError} :
      b.attachRtc config = .ok (error, b') → Worked b b'
  | detachRtc {b : Board} : Worked b b.detachRtc
  | attachVia {b : Board} : Worked b b.attachVia
  | detachVia {b : Board} : Worked b b.detachVia
  | reset {b b' : Board} : b.reset = .ok b' → Worked b b'
  | read {b : Board} (address : UInt16) : Worked b (b.read address).2
  | write {b b' : Board} {address : UInt16} {value : UInt8} :
      b.write address value = .ok b' → Worked b b'
  | tick {b b' : Board} {cycles : Nat} : b.tick cycles = .ok b' → Worked b b'
  | handled {b : Board} {d : Devices} : b.devices.Handled d → Worked b { b with devices := d }

/-- What is known of a board that was made to a standard and a configuration. -/
structure Fit (standard : VideoStandard) (cia : Cia.Config) (b : Board) : Prop where
  sound : b.Sound
  scheduled : b.Scheduled
  made : b.devices.MadeTo standard cia

variable {standard : VideoStandard} {cia : Cia.Config} {d : Devices} {b b' : Board}

/-! ## Alarms -/

theorem Devices.MadeTo.expire (h : d.MadeTo standard cia) (sound : d.Sound) (bank : Fin 4)
    (e : Event) : (d.expire bank e).MadeTo standard cia := by
  cases e with
  | cia1 e => exact { h with cia1 := (d.cia1.expire_config e).trans h.cia1 }
  | cia2 e => exact { h with cia2 := (d.cia2.expire_config e).trans h.cia2 }
  | via e => exact ⟨h.vic, h.cia1, h.cia2⟩
  | rtc e => cases e; exact ⟨h.vic, h.cia1, h.cia2⟩
  | rasterLine =>
    obtain ⟨ended, vic, hend, -, heq⟩ := sound.closeLine_eq bank
    show (d.closeLine bank).MadeTo standard cia
    rw [heq]
    exact { h with vic := (sound.vic.endOfLine_standard hend).trans h.vic }

theorem fire_keeps_made (bank : Fin 4) :
    Handler.Lawful (fire bank) fun d => d.Sound ∧ d.MadeTo standard cia := by
  intro alarm c d c' d' hc ⟨sound, made⟩ h
  obtain ⟨reach, sound'⟩ := fire_lawful bank alarm c d c' d' hc sound h
  obtain ⟨-, rfl⟩ := fire_ok h
  exact ⟨reach, sound', made.expire sound bank alarm.event⟩

/-! ## Operations -/

theorem Fit.new {memory : Memory} (paced : cia.Paced) (h : Board.new memory standard cia = .ok b) :
    b.Fit standard cia := by
  refine ⟨.new paced h, .new h, ?_⟩
  obtain ⟨⟨cia1, clock₁⟩, h₁, h⟩ := bind_eq_ok.mp h
  obtain ⟨⟨cia2, clock₂⟩, h₂, h⟩ := bind_eq_ok.mp h
  obtain ⟨⟨due, clock₃⟩, h₃, h⟩ := bind_eq_ok.mp h
  cases h
  obtain ⟨r₁, e₁⟩ := Cia.new_ok Event.cia1 zero_reachable h₁
  exact ⟨rfl, e₁, (Cia.new_ok Event.cia2 r₁ h₂).2⟩

/-- Only the chips count. -/
theorem Devices.MadeTo.congr (h : d.MadeTo standard cia) {d' : Devices}
    (vic : d'.vic.standard = d.vic.standard) (cia1 : d'.cia1.config = d.cia1.config)
    (cia2 : d'.cia2.config = d.cia2.config) : d'.MadeTo standard cia :=
  ⟨vic.trans h.vic, cia1.trans h.cia1, cia2.trans h.cia2⟩

theorem detachRtc_frame (b : Board) : ∃ rtc, b.detachRtc.devices = { b.devices with rtc } := by
  unfold detachRtc
  split <;> exact ⟨_, rfl⟩

theorem Fit.attachRtc (h : b.Fit standard cia) {config : Rtc.Config}
    {error : Option Rtc.ConfigError} (hrun : b.attachRtc config = .ok (error, b')) :
    b'.Fit standard cia := by
  refine ⟨h.sound.attachRtc hrun, h.scheduled.attachRtc hrun, ?_⟩
  obtain ⟨built, -, hret⟩ := bind_eq_ok.mp hrun
  obtain ⟨rtc, detached⟩ := b.detachRtc_frame
  cases built with
  | error e =>
    cases hret
    rw [detached]
    exact h.made.congr rfl rfl rfl
  | ok fitted =>
    cases hret
    simp only [detached]
    exact h.made.congr rfl rfl rfl

theorem Fit.detachRtc (h : b.Fit standard cia) : b.detachRtc.Fit standard cia := by
  refine ⟨h.sound.detachRtc, h.scheduled.detachRtc, ?_⟩
  obtain ⟨rtc, detached⟩ := b.detachRtc_frame
  rw [detached]
  exact h.made.congr rfl rfl rfl

theorem Fit.attachVia (h : b.Fit standard cia) : b.attachVia.Fit standard cia := by
  refine ⟨h.sound.attachVia, h.scheduled.attachVia, ?_⟩
  unfold Board.attachVia
  split <;> exact h.made.congr rfl rfl rfl

theorem Fit.detachVia (h : b.Fit standard cia) : b.detachVia.Fit standard cia := by
  refine ⟨h.sound.detachVia, h.scheduled.detachVia, ?_⟩
  unfold Board.detachVia
  split <;> exact h.made.congr rfl rfl rfl

theorem Fit.reset (h : b.Fit standard cia) (hrun : b.reset = .ok b') : b'.Fit standard cia := by
  refine ⟨h.sound.reset hrun, h.scheduled.reset hrun, ?_⟩
  obtain ⟨cia1, cia2, clock₁, clock₂, due, clock₃, h₁, h₂, -, rfl⟩ := reset_ok hrun
  obtain ⟨r₁, e₁⟩ := Cia.reset_ok Event.cia1 h.sound.clock h₁
  exact h.made.congr rfl e₁ (Cia.reset_ok Event.cia2 r₁ h₂).2

theorem Devices.MadeTo.readChip (h : b.devices.MadeTo standard cia) (address : UInt16) :
    (b.readChip address).2.devices.MadeTo standard cia := by
  unfold Board.readChip
  simp only []
  split
  · refine h.congr ?_ rfl rfl
    unfold Vic.read
    simp only []
    split <;> rfl
  · exact h.congr rfl (Cia.read_config Event.cia1 _ b.clock _) rfl
  · exact h.congr rfl rfl (Cia.read_config Event.cia2 _ b.clock _)
  · split <;> exact h.congr rfl rfl rfl
  all_goals exact h

theorem Fit.read (h : b.Fit standard cia) (address : UInt16) :
    (b.read address).2.Fit standard cia := by
  refine ⟨h.sound.read address, h.scheduled.read address, ?_⟩
  unfold Board.read
  simp only []
  split
  · exact (h.made.readChip address).congr rfl rfl rfl
  · exact h.made.congr rfl rfl rfl

theorem Devices.MadeTo.writeChip (h : b.devices.MadeTo standard cia) (reach : b.clock.Reachable)
    {address : UInt16} {value : UInt8} (hrun : b.writeChip address value = .ok b') :
    b'.devices.MadeTo standard cia := by
  obtain ⟨d, clock⟩ := b
  unfold Board.writeChip at hrun
  simp only [] at hrun
  split at hrun
  · cases hrun
    refine h.congr ?_ rfl rfl
    unfold Vic.write
    simp only []
    split <;> rfl
  · cases hrun; exact h
  · cases hrun; exact h.congr rfl rfl rfl
  · obtain ⟨⟨cia1, clock₁⟩, hcia, hret⟩ := bind_eq_ok.mp hrun
    cases hret
    exact h.congr rfl (Cia.write_ok Event.cia1 reach hcia).2 rfl
  · obtain ⟨⟨cia2, clock₁⟩, hcia, hret⟩ := bind_eq_ok.mp hrun
    cases hret
    exact h.congr rfl rfl (Cia.write_ok Event.cia2 reach hcia).2
  · split at hrun <;> (cases hrun; exact h.congr rfl rfl rfl)
  · split at hrun
    · obtain ⟨⟨via, clock₁⟩, -, hret⟩ := bind_eq_ok.mp hrun
      cases hret
      exact h.congr rfl rfl rfl
    · cases hrun; exact h

theorem Fit.write (h : b.Fit standard cia) {address : UInt16} {value : UInt8}
    (hrun : b.write address value = .ok b') : b'.Fit standard cia := by
  refine ⟨h.sound.write hrun, h.scheduled.write hrun, ?_⟩
  obtain ⟨⟨memory, vic, cia1, cia2, via, rtc, keyboard, joystick1, joystick2, lastValue, rtcLines,
    frameComplete⟩, clock⟩ := b
  unfold Board.write at hrun
  simp only [] at hrun
  split at hrun
  · refine Devices.MadeTo.writeChip ?_ ?_ hrun
    · exact h.made.congr rfl rfl rfl
    · exact h.sound.clock
  · cases hrun; exact h.made.congr rfl rfl rfl

theorem Fit.tick (h : b.Fit standard cia) {cycles : Nat} (hrun : b.tick cycles = .ok b') :
    b'.Fit standard cia := by
  refine ⟨h.sound.tick hrun, h.scheduled.tick hrun, ?_⟩
  obtain ⟨d, clock⟩ := b
  obtain ⟨⟨clock', d'⟩, hadvance, hret⟩ := bind_eq_ok.mp hrun
  cases hret
  exact (h.sound.clock.advanceWithin (fire_keeps_made d.bank) ⟨h.sound.devices, h.made⟩
    hadvance).2.2

/-- What the host may do to the devices leaves alone what asks for alarms. -/
theorem Scheduled.handled (h : b.Scheduled) (hd : b.devices.Handled d) :
    Scheduled { b with devices := d } := by
  obtain ⟨_, _, _, h₁⟩ := hd.cia1
  obtain ⟨_, _, _, h₂⟩ := hd.cia2
  have rtc : d.rtc.isSome = b.devices.rtc.isSome := by
    simpa using congrArg Option.isSome hd.rtc
  have via : d.via.isSome = b.devices.via.isSome := by
    simpa using congrArg Option.isSome hd.via
  refine h.withDevices ⟨h.owners.rasterLine, ?_, ?_, h.owners.rtc.trans rtc.symm, ?_, ?_⟩
  · exact h.owners.cia1.of_control fun which => by rw [h₁]; cases which <;> rfl
  · exact h.owners.cia2.of_control fun which => by rw [h₂]; cases which <;> rfl
  · intro v hv
    have kept := hd.via
    rw [Option.mem_def.mp hv] at kept
    obtain ⟨old, hold, control⟩ := Option.map_eq_some_iff.mp kept.symm
    exact (h.owners.via old hold).of_control control.symm
  · intro none
    exact h.owners.noVia (by simpa [none] using via.symm)

theorem Fit.handled (h : b.Fit standard cia) (hd : b.devices.Handled d) :
    Fit standard cia { b with devices := d } := by
  obtain ⟨_, _, _, h₁⟩ := hd.cia1
  obtain ⟨_, _, _, h₂⟩ := hd.cia2
  exact ⟨h.sound.handled hd, h.scheduled.handled hd,
    h.made.congr hd.standard (by rw [h₁]) (by rw [h₂])⟩

/-- Whatever the host does with a board, it keeps what it was made to. -/
theorem Fit.worked (h : b.Fit standard cia) (work : Worked b b') : b'.Fit standard cia := by
  cases work with
  | attachRtc hrun => exact h.attachRtc hrun
  | detachRtc => exact h.detachRtc
  | attachVia => exact h.attachVia
  | detachVia => exact h.detachVia
  | reset hrun => exact h.reset hrun
  | read address => exact h.read address
  | write hrun => exact h.write hrun
  | tick hrun => exact h.tick hrun
  | handled hd => exact h.handled hd

/-- So does whatever a processor does. The relation is between a board and itself. -/
theorem fit_simulates :
    Bus.Simulates True fun b b' : Board => b = b' ∧ b.Fit standard cia where
  read := by
    rintro b _ ⟨rfl, h⟩ address
    exact ⟨rfl, rfl, h.read address⟩
  write := by
    rintro b _ ⟨rfl, h⟩ address value
    exact .self fun _ hrun => ⟨rfl, h.write hrun⟩
  tick := by
    rintro b _ ⟨rfl, h⟩ n -
    exact .self fun _ hrun => ⟨rfl, h.tick hrun⟩
  lines := by
    rintro b _ ⟨rfl, -⟩
    rfl

end C64.Board
