import C64.Machine
import C64.Proofs.Board.Alarms

/-!
# The boards of a run

`Board.Reachable` is every board that a run can come to: built, fitted out, reset, read and
written by the processor, given time, and handled by the host between two instructions, in any
order. The one thing asked of the start is a configuration of the adapters whose tenth of a
second leaves room for its alarm; that of a machine always does (`Machine.Config.cia_paced`), so
every board that a machine is built with is reachable (`buildBoard_reachable`).

`Board.Sound` is what all of them keep.
-/

namespace C64

open Clock

/-- Every configuration of a machine gives its adapters a tenth of a second that leaves room. -/
theorem Machine.Config.cia_paced (config : Machine.Config) : config.cia.1.Paced := by
  have room : ∀ rate, config.standard.cpuHz / max rate 1 * 6 ≤ Cycle.headroom := by
    intro rate
    have whole : config.standard.cpuHz / max rate 1 ≤ config.standard.cpuHz := Nat.div_le_self _ _
    have most : config.standard.cpuHz ≤ 1022727 := by cases config.standard <;> decide
    unfold Cycle.headroom Cycle.last Cycle.clockMax
    omega
  unfold Machine.Config.cia
  simp only []
  split
  · exact room _
  · exact room _

namespace Board

/-! ## What every board keeps -/

/-- What every operation of a board keeps. -/
structure Sound (b : Board) : Prop where
  clock : b.clock.Reachable
  devices : b.devices.Sound

theorem zero_reachable : (Clock.zero : Clock Event).Reachable := by
  have started : Clock.start 0 = .ok (.zero : Clock Event) := rfl
  exact .start started

theorem Sound.new {memory : Memory} {standard : VideoStandard} {cia : Cia.Config} {b : Board}
    (hcia : cia.Paced) (h : Board.new memory standard cia = .ok b) : b.Sound := by
  obtain ⟨⟨cia1, clock₁⟩, h₁, h⟩ := bind_eq_ok.mp h
  obtain ⟨⟨cia2, clock₂⟩, h₂, h⟩ := bind_eq_ok.mp h
  obtain ⟨⟨due, clock₃⟩, h₃, h⟩ := bind_eq_ok.mp h
  cases h
  obtain ⟨r₁, e₁⟩ := Cia.new_ok Event.cia1 zero_reachable h₁
  obtain ⟨r₂, e₂⟩ := Cia.new_ok Event.cia2 r₁ h₂
  exact ⟨r₂.setAlarmIn h₃, .new standard, e₁.symm ▸ hcia, e₂.symm ▸ hcia, by simp⟩

theorem Sound.detachRtc {b : Board} (h : b.Sound) : b.detachRtc.Sound := by
  unfold Board.detachRtc
  split
  · exact ⟨h.clock.cancel _, { h.devices with rtc := by simp }⟩
  · exact h

theorem Sound.attachRtc {b b' : Board} {config : Rtc.Config} {error : Option Rtc.ConfigError}
    (h : b.Sound) (hrun : b.attachRtc config = .ok (error, b')) : b'.Sound := by
  have detached := h.detachRtc
  obtain ⟨built, hnew, hret⟩ := bind_eq_ok.mp hrun
  cases built with
  | error e => cases hret; exact detached
  | ok fitted =>
    obtain ⟨rtc, clock⟩ := fitted
    cases hret
    obtain ⟨hreach, hrate⟩ := Rtc.new_ok Event.rtc detached.clock hnew
    exact ⟨hreach, { detached.devices with rtc := by rintro _ ⟨⟩; exact hrate }⟩

theorem Sound.attachVia {b : Board} (h : b.Sound) : b.attachVia.Sound := by
  unfold Board.attachVia
  split
  · exact h
  · exact ⟨h.clock, h.devices.vic, h.devices.cia1, h.devices.cia2, h.devices.rtc⟩

theorem Sound.detachVia {b : Board} (h : b.Sound) : b.detachVia.Sound := by
  unfold Board.detachVia
  split
  · exact ⟨Via.reset_reachable Event.via h.clock, h.devices.vic, h.devices.cia1, h.devices.cia2,
      h.devices.rtc⟩
  · exact h

theorem Sound.reset {b b' : Board} (h : b.Sound) (hrun : b.reset = .ok b') : b'.Sound := by
  obtain ⟨⟨memory, vic, cia1, cia2, via, rtc, rest⟩, clock⟩ := b
  unfold Board.reset at hrun
  simp only [] at hrun
  obtain ⟨⟨cia1', clock₁⟩, h₁, hrun⟩ := bind_eq_ok.mp hrun
  obtain ⟨⟨cia2', clock₂⟩, h₂, hrun⟩ := bind_eq_ok.mp hrun
  obtain ⟨r₁, e₁⟩ := Cia.reset_ok Event.cia1 h.clock h₁
  obtain ⟨r₂, e₂⟩ := Cia.reset_ok Event.cia2 r₁ h₂
  -- A reset gives up a transfer but not the calendar, so the rate stays.
  have keeps : ∀ r ∈ rtc.map Rtc.resetLines, 1 ≤ r.cyclesPerSecond := by
    intro r hr
    obtain ⟨old, hold, rfl⟩ := Option.map_eq_some_iff.mp hr
    exact h.devices.rtc old hold
  cases via with
  | none =>
    obtain ⟨⟨due, clock₃⟩, h₃, hret⟩ := bind_eq_ok.mp hrun
    cases hret
    exact ⟨r₂.setAlarmIn h₃, h.devices.vic.reset, e₁.symm ▸ h.devices.cia1,
      e₂.symm ▸ h.devices.cia2, keeps⟩
  | some via =>
    obtain ⟨⟨due, clock₃⟩, h₃, hret⟩ := bind_eq_ok.mp hrun
    cases hret
    exact ⟨(Via.reset_reachable Event.via r₂).setAlarmIn h₃, h.devices.vic.reset,
      e₁.symm ▸ h.devices.cia1, e₂.symm ▸ h.devices.cia2, keeps⟩

/-! ## Reads and writes -/

theorem Sound.withDevices {b : Board} (h : b.Sound) {d : Devices} (hd : d.Sound) :
    Sound { b with devices := d } :=
  ⟨h.clock, hd⟩

theorem Sound.readCia1 {b : Board} (h : b.Sound) (register : UInt8) :
    (b.readCia1 register).2.Sound := by
  have kept := Cia.read_config Event.cia1 b.devices.scanInput.cia1 b.clock register
  exact h.withDevices { h.devices with cia1 := kept.symm ▸ h.devices.cia1 }

theorem Sound.readChip {b : Board} (h : b.Sound) (address : UInt16) :
    (b.readChip address).2.Sound := by
  unfold Board.readChip
  simp only []
  split
  · exact h.withDevices { h.devices with vic := h.devices.vic.read _ }
  · exact h.readCia1 _
  · have kept := Cia.read_config Event.cia2 b.devices.cia2 b.clock (lowByte address)
    exact h.withDevices { h.devices with cia2 := kept.symm ▸ h.devices.cia2 }
  · split
    · exact h.withDevices ⟨h.devices.vic, h.devices.cia1, h.devices.cia2, h.devices.rtc⟩
    · exact h
  all_goals exact h

theorem Sound.withLastValue {b : Board} (h : b.Sound) (value : UInt8) :
    Sound { b with devices.lastValue := value } :=
  ⟨h.clock, h.devices.vic, h.devices.cia1, h.devices.cia2, h.devices.rtc⟩

theorem Sound.read {b : Board} (h : b.Sound) (address : UInt16) : (b.read address).2.Sound := by
  unfold Board.read
  simp only []
  cases b.reachesChip address with
  | true => exact (h.readChip address).withLastValue _
  | false => exact h.withLastValue _

theorem Sound.writeChip {b b' : Board} (h : b.Sound) {address : UInt16} {value : UInt8}
    (hrun : b.writeChip address value = .ok b') : b'.Sound := by
  obtain ⟨d, clock⟩ := b
  unfold Board.writeChip at hrun
  simp only [] at hrun
  split at hrun
  · cases hrun
    exact h.withDevices { h.devices with vic := h.devices.vic.write _ _ }
  · cases hrun; exact h
  · cases hrun
    exact h.withDevices ⟨h.devices.vic, h.devices.cia1, h.devices.cia2, h.devices.rtc⟩
  · obtain ⟨⟨cia1, clock₁⟩, hcia, hret⟩ := bind_eq_ok.mp hrun
    cases hret
    obtain ⟨hreach, kept⟩ := Cia.write_ok Event.cia1 h.clock hcia
    exact ⟨hreach, { h.devices with cia1 := kept.symm ▸ h.devices.cia1 }⟩
  · obtain ⟨⟨cia2, clock₁⟩, hcia, hret⟩ := bind_eq_ok.mp hrun
    cases hret
    obtain ⟨hreach, kept⟩ := Cia.write_ok Event.cia2 h.clock hcia
    exact ⟨hreach, { h.devices with cia2 := kept.symm ▸ h.devices.cia2 }⟩
  · split at hrun
    · next rtc hrtc =>
      cases hrun
      refine h.withDevices { h.devices with rtc := ?_ }
      rintro _ ⟨⟩
      rw [Rtc.setLines_cyclesPerSecond]
      exact h.devices.rtc rtc hrtc
    · cases hrun; exact h
  · split at hrun
    · obtain ⟨⟨via, clock₁⟩, hvia, hret⟩ := bind_eq_ok.mp hrun
      cases hret
      exact ⟨Via.write_reachable Event.via h.clock hvia, h.devices.vic, h.devices.cia1,
        h.devices.cia2, h.devices.rtc⟩
    · cases hrun; exact h

theorem Sound.write {b b' : Board} (h : b.Sound) {address : UInt16} {value : UInt8}
    (hrun : b.write address value = .ok b') : b'.Sound := by
  obtain ⟨⟨memory, vic, cia1, cia2, via, rtc, keyboard, joystick1, joystick2, lastValue, rtcLines,
    frameComplete⟩, clock⟩ := b
  unfold Board.write at hrun
  simp only [] at hrun
  split at hrun
  · refine Sound.writeChip (b := ⟨⟨memory, vic, cia1, cia2, via, rtc, keyboard, joystick1,
      joystick2, value, rtcLines, frameComplete⟩, clock⟩) ?_ hrun
    exact ⟨h.clock, h.devices.vic, h.devices.cia1, h.devices.cia2, h.devices.rtc⟩
  · cases hrun
    exact ⟨h.clock, h.devices.vic, h.devices.cia1, h.devices.cia2, h.devices.rtc⟩

/-! ## Time -/

theorem Sound.tick {b b' : Board} (h : b.Sound) {cycles : Nat} (hrun : b.tick cycles = .ok b') :
    b'.Sound := by
  obtain ⟨d, clock⟩ := b
  obtain ⟨⟨clock', d'⟩, hadvance, hret⟩ := bind_eq_ok.mp hrun
  cases hret
  obtain ⟨hclock, hd⟩ := h.clock.advanceWithin (fire_lawful d.bank) h.devices hadvance
  exact ⟨hclock, hd⟩

/-! ## The boards of a run -/

/-- What the host can do to the devices between two instructions: it loads the memory, works the
keys and the sticks, takes or repaints the completed frame, and drives pins of the chips. What it
leaves alone is what the chips count on. -/
structure Devices.Handled (d d' : Devices) : Prop where
  vic : d'.vic.Reachable
  standard : d'.vic.standard = d.vic.standard
  /-- Only pins of the adapters are driven from outside. -/
  cia1 : ∃ a b sources, d'.cia1 = { d.cia1 with inputA := a, inputB := b, sources := sources }
  cia2 : ∃ a b sources, d'.cia2 = { d.cia2 with inputA := a, inputB := b, sources := sources }
  via : d'.via.map Via.control = d.via.map Via.control
  rtc : d'.rtc.map Rtc.cyclesPerSecond = d.rtc.map Rtc.cyclesPerSecond

/-- The boards that a run leads to. -/
inductive Reachable : Board → Prop where
  | new {memory : Memory} {standard : VideoStandard} {cia : Cia.Config} {b : Board} :
      cia.Paced → new memory standard cia = .ok b → Reachable b
  | attachRtc {b b' : Board} {config : Rtc.Config} {error : Option Rtc.ConfigError} :
      Reachable b → b.attachRtc config = .ok (error, b') → Reachable b'
  | detachRtc {b : Board} : Reachable b → Reachable b.detachRtc
  | attachVia {b : Board} : Reachable b → Reachable b.attachVia
  | detachVia {b : Board} : Reachable b → Reachable b.detachVia
  | reset {b b' : Board} : Reachable b → b.reset = .ok b' → Reachable b'
  | read {b : Board} (address : UInt16) : Reachable b → Reachable (b.read address).2
  | write {b b' : Board} {address : UInt16} {value : UInt8} :
      Reachable b → b.write address value = .ok b' → Reachable b'
  | tick {b b' : Board} {cycles : Nat} : Reachable b → b.tick cycles = .ok b' → Reachable b'
  | handled {b : Board} {d : Devices} :
      Reachable b → b.devices.Handled d → Reachable { b with devices := d }

theorem Sound.handled {b : Board} (h : b.Sound) {d : Devices} (hd : b.devices.Handled d) :
    Sound { b with devices := d } := by
  obtain ⟨_, _, _, h₁⟩ := hd.cia1
  obtain ⟨_, _, _, h₂⟩ := hd.cia2
  refine h.withDevices ⟨hd.vic.sound, h₁ ▸ h.devices.cia1, h₂ ▸ h.devices.cia2, fun rtc hrtc => ?_⟩
  have kept := hd.rtc
  rw [Option.mem_def.mp hrtc] at kept
  obtain ⟨old, hold, heq⟩ := Option.map_eq_some_iff.mp kept.symm
  rw [← heq]
  exact h.devices.rtc old hold

theorem Reachable.sound {b : Board} (h : b.Reachable) : b.Sound := by
  induction h with
  | new hcia hnew => exact .new hcia hnew
  | attachRtc _ hrun ih => exact ih.attachRtc hrun
  | detachRtc _ ih => exact ih.detachRtc
  | attachVia _ ih => exact ih.attachVia
  | detachVia _ ih => exact ih.detachVia
  | reset _ hrun ih => exact ih.reset hrun
  | read address _ ih => exact ih.read address
  | write _ hrun ih => exact ih.write hrun
  | tick _ hrun ih => exact ih.tick hrun
  | handled _ hd ih => exact ih.handled hd

/-- Every board that a machine is built with is the board of a run. -/
theorem buildBoard_reachable {memory : Memory} {config : Machine.Config} {b : Board}
    {errors : List Machine.ConfigError}
    (h : Machine.buildBoard memory config = .ok (b, errors)) : b.Reachable := by
  unfold Machine.buildBoard at h
  simp only [] at h
  obtain ⟨b₁, hnew, h⟩ := bind_eq_ok.mp h
  have built : b₁.Reachable := .new config.cia_paced hnew
  split at h
  · obtain ⟨⟨error, b₂⟩, hrtc, hret⟩ := bind_eq_ok.mp h
    have fitted := built.attachRtc hrtc
    simp only [] at hret
    split at hret
    · cases hret; exact fitted.attachVia
    · cases hret; exact fitted
  · simp only [pure_bind] at h
    split at h
    · cases h; exact built.attachVia
    · cases h; exact built

end Board

end C64
