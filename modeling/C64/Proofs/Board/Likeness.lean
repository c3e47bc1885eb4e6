import C64.Proofs.Board.Scheduling
import C64.Proofs.Board.Ticks
import C64.Proofs.Cia.Likeness
import C64.Proofs.Cpu.Simulation
import C64.Proofs.Via.Likeness
import C64.Proofs.Vic.Lines

/-!
# Boards that a processor cannot tell apart

Two boards without a real-time clock are alike when their chips are the same, but for what the
video chip keeps of lines and rows that are over, and their clocks run alike (`Board.Alike`). All
that a processor can do with them leaves them alike and reads the same (`simulates`), and none of
it fails.
-/

namespace C64.Board

open Clock Function

/-- The devices whose alarms always leave room: no real-time clock is fitted, and a tenth of a
second is not too long. -/
structure Devices.Steady (d : Devices) : Prop where
  rtc : d.rtc = none
  cia1 : d.cia1.config.Paced
  cia2 : d.cia2.config.Paced

/-- Devices that are the same but for video chips that draw alike. -/
inductive Devices.Alike : Devices → Devices → Prop
  | mk {d : Devices} {vic : Vic} : d.Steady → d.vic.Alike vic → Alike d { d with vic }

/-- The same devices, as far as a processor can tell, on clocks that run alike. -/
structure Alike (b b' : Board) : Prop where
  devices : b.devices.Alike b'.devices
  clock : b.clock.Alike every b'.clock

section Devices

variable {d d' : Devices} {vic : Vic}

theorem Devices.Steady.sound (h : d.Steady) (hv : d.vic.Sound) : d.Sound :=
  ⟨hv, h.cia1, h.cia2, by simp [h.rtc]⟩

theorem Devices.Steady.ready (h : d.Steady) (hv : d.vic.Sound) : d.Ready d.bank :=
  ⟨h.sound hv, by simp [Devices.Paced, h.rtc], rfl⟩

/-- Nothing but the clock chips decides whether alarms leave room. -/
theorem Devices.Steady.congr (h : d.Steady) (rtc : d'.rtc = d.rtc)
    (cia1 : d'.cia1.config = d.cia1.config) (cia2 : d'.cia2.config = d.cia2.config) : d'.Steady :=
  ⟨rtc.trans h.rtc, cia1 ▸ h.cia1, cia2 ▸ h.cia2⟩

/-- An alarm comes again for both alike, and leaves both alike. -/
theorem Devices.Alike.expire (h : d.Alike d') (bank : Fin 4) (e : Event) :
    d.again? e = d'.again? e ∧ (d.expire bank e).Alike (d'.expire bank e) := by
  obtain ⟨steady, hvic⟩ := h
  cases e with
  | cia1 e => exact ⟨rfl, .mk (steady.congr rfl (d.cia1.expire_config e) rfl) hvic⟩
  | cia2 e => exact ⟨rfl, .mk (steady.congr rfl rfl (d.cia2.expire_config e)) hvic⟩
  | via e => exact ⟨rfl, .mk (steady.congr rfl rfl rfl) hvic⟩
  | rtc e =>
    cases e
    have kept : (d.expire bank (.rtc .tick)).rtc = d.rtc := by simp [Devices.expire, steady.rtc]
    exact ⟨rfl, .mk (steady.congr kept rfl rfl) hvic⟩
  | rasterLine =>
    refine ⟨congrArg (fun s : VideoStandard => some s.cyclesPerLine) hvic.agree.standard, ?_⟩
    obtain ⟨⟨ended, v⟩, ⟨_, w⟩, hend, hend', rfl, closed⟩ :=
      (hvic.endOfLine (d.memory.view bank)).exists_ok
    simp only [Devices.expire, Devices.closeLine, hend, hend']
    exact .mk (steady.congr rfl rfl rfl) closed

end Devices

variable {b b' : Board}

theorem Devices.Alike.parts (h : b.devices.Alike b'.devices) : ∃ d vic c c',
    b = ⟨d, c⟩ ∧ b' = ⟨{ d with vic }, c'⟩ ∧ d.Steady ∧ d.vic.Alike vic := by
  obtain ⟨d, c⟩ := b
  obtain ⟨d', c'⟩ := b'
  have h : d.Alike d' := h
  obtain ⟨steady, hvic⟩ := h
  exact ⟨d, _, c, c', rfl, rfl, steady, hvic⟩

theorem Alike.parts (h : Alike b b') : ∃ d vic c c', b = ⟨d, c⟩ ∧ b' = ⟨{ d with vic }, c'⟩ ∧
    d.Steady ∧ d.vic.Alike vic ∧ Clock.Alike every c c' := by
  obtain ⟨d, vic, c, c', rfl, rfl, steady, hvic⟩ := h.devices.parts
  exact ⟨d, vic, c, c', rfl, rfl, steady, hvic, h.clock⟩

theorem Alike.sound (h : Alike b b') : b.Sound ∧ b'.Sound := by
  obtain ⟨d, vic, c, c', rfl, rfl, steady, hvic, clock⟩ := h.parts
  have other : { d with vic }.Steady := steady.congr rfl rfl rfl
  exact ⟨⟨clock.left, steady.sound hvic.left⟩, ⟨clock.right, other.sound hvic.right⟩⟩

/-! ## Reads -/

theorem Alike.readCia1 (h : Alike b b') (register : UInt8) :
    Beside Alike (b.readCia1 register) (b'.readCia1 register) := by
  obtain ⟨d, vic, c, c', rfl, rfl, steady, hvic, clock⟩ := h.parts
  have read : { d with vic }.scanInput.cia1.read Event.cia1 c' register =
      d.scanInput.cia1.read Event.cia1 c register :=
    (Cia.read_alike Event.cia1 clock d.scanInput.cia1 register).symm
  have kept := Cia.read_config Event.cia1 d.scanInput.cia1 c register
  have next : Devices.Steady
      { d.scanInput with cia1 := (d.scanInput.cia1.read Event.cia1 c register).2 } :=
    steady.congr rfl kept rfl
  unfold Board.readCia1
  simp only [read]
  exact ⟨rfl, .mk next hvic, clock⟩

theorem Alike.peekChip (h : Alike b b') (address : UInt16) :
    b.peekChip address = b'.peekChip address := by
  obtain ⟨d, vic, c, c', rfl, rfl, steady, hvic, clock⟩ := h.parts
  unfold Board.peekChip
  simp only []
  cases Device.behind address with
  | vic => exact hvic.peek _
  | cia1 => exact Cia.peek_alike Event.cia1 clock d.cia1 _
  | cia2 => exact Cia.peek_alike Event.cia2 clock d.cia2 _
  | via => simp only [Via.peek_alike Event.via clock]
  | sound | colours | rtc => rfl

theorem Alike.readChip (h : Alike b b') (address : UInt16) :
    Beside Alike (b.readChip address) (b'.readChip address) := by
  have shown := h.peekChip address
  have cia1 := h.readCia1 (lowByte address)
  obtain ⟨d, vic, c, c', rfl, rfl, steady, hvic, clock⟩ := h.parts
  unfold Board.readChip
  simp only []
  cases Device.behind address with
  | vic =>
    obtain ⟨value, read⟩ := hvic.read (lowByte address)
    exact ⟨value, .mk (steady.congr rfl rfl rfl) read, clock⟩
  | cia1 => exact cia1
  | cia2 =>
    have kept := Cia.read_config Event.cia2 d.cia2 c (lowByte address)
    simp only [← Cia.read_alike Event.cia2 clock]
    exact ⟨rfl, .mk (steady.congr rfl rfl kept) hvic, clock⟩
  | via =>
    simp only [← Via.read_alike Event.via clock]
    split
    · exact ⟨rfl, .mk (steady.congr rfl rfl rfl) hvic, clock⟩
    · exact ⟨rfl, .mk steady hvic, clock⟩
  | sound | colours | rtc => exact ⟨shown, .mk steady hvic, clock⟩

theorem Alike.withLastValue (h : Alike b b') (value : UInt8) :
    Alike { b with devices.lastValue := value } { b' with devices.lastValue := value } := by
  obtain ⟨d, vic, c, c', rfl, rfl, steady, hvic, clock⟩ := h.parts
  exact ⟨.mk (steady.congr rfl rfl rfl) hvic, clock⟩

theorem Alike.read (h : Alike b b') (address : UInt16) :
    Beside Alike (b.read address) (b'.read address) := by
  have reaches : b.reachesChip address = b'.reachesChip address := by
    obtain ⟨d, vic, c, c', rfl, rfl, -⟩ := h.parts
    rfl
  have memory : b.devices.memory = b'.devices.memory := by
    obtain ⟨d, vic, c, c', rfl, rfl, -⟩ := h.parts
    rfl
  unfold Board.read
  rw [← reaches, ← memory]
  cases b.reachesChip address with
  | true =>
    obtain ⟨value, next⟩ := h.readChip address
    simp only [if_true, value]
    exact ⟨rfl, next.withLastValue _⟩
  | false => exact ⟨rfl, h.withLastValue _⟩

/-! ## Writes -/

theorem Alike.writeChip (h : Alike b b') (address : UInt16) (value : UInt8) :
    Together False Alike (b.writeChip address value) (b'.writeChip address value) := by
  obtain ⟨d, vic, c, c', rfl, rfl, steady, hvic, clock⟩ := h.parts
  unfold Board.writeChip
  simp only []
  cases Device.behind address with
  | vic => exact .ok ⟨.mk (steady.congr rfl rfl rfl) (hvic.write _ _), clock⟩
  | sound => exact .ok ⟨.mk steady hvic, clock⟩
  | colours => exact .ok ⟨.mk (steady.congr rfl rfl rfl) hvic, clock⟩
  | cia1 =>
    refine ((Cia.write_alike Event.cia1 clock steady.cia1 _ value).of_left fun p hp =>
      (Cia.write_ok Event.cia1 clock.left hp).2).bind ?_
    rintro ⟨cia1, c⟩ ⟨_, c'⟩ ⟨⟨rfl, clock⟩, kept⟩
    exact .ok ⟨.mk (steady.congr rfl kept rfl) hvic, clock⟩
  | cia2 =>
    refine ((Cia.write_alike Event.cia2 clock steady.cia2 _ value).of_left fun p hp =>
      (Cia.write_ok Event.cia2 clock.left hp).2).bind ?_
    rintro ⟨cia2, c⟩ ⟨_, c'⟩ ⟨⟨rfl, clock⟩, kept⟩
    exact .ok ⟨.mk (steady.congr rfl rfl kept) hvic, clock⟩
  | rtc =>
    simp only []
    split
    · next fitted => exact absurd fitted (by simp [steady.rtc])
    · exact .ok ⟨.mk steady hvic, clock⟩
  | via =>
    simp only []
    split
    · refine (Via.write_alike Event.via clock _ _ value).bind ?_
      rintro ⟨via, c⟩ ⟨_, c'⟩ ⟨rfl, clock⟩
      exact .ok ⟨.mk (steady.congr rfl rfl rfl) hvic, clock⟩
    · exact .ok ⟨.mk steady hvic, clock⟩

theorem Alike.write (h : Alike b b') (address : UInt16) (value : UInt8) :
    Together False Alike (b.write address value) (b'.write address value) := by
  have chips := (h.withLastValue value).writeChip address value
  obtain ⟨d, vic, c, c', rfl, rfl, steady, hvic, clock⟩ := h.parts
  unfold Board.write
  simp only []
  split
  · exact chips
  · exact .ok ⟨.mk (steady.congr rfl rfl rfl) hvic, clock⟩

/-! ## Time -/

theorem Alike.tick (h : Alike b b') {n : Nat} (hn : n ≤ Cycle.clockMax) :
    Together False Alike (b.tick n) (b'.tick n) := by
  have sound := h.sound
  obtain ⟨d, vic, c, c', rfl, rfl, steady, hvic, clock⟩ := h.parts
  have ready : d.Ready d.bank := steady.ready hvic.left
  have other : { d with vic }.Steady := steady.congr rfl rfl rfl
  have ready' : { d with vic }.Ready d.bank := other.ready hvic.right
  obtain ⟨_, b₁, htick, age, leads⟩ := sound.1.tick_leads ready hn
  obtain ⟨_, b₁', htick', age', leads'⟩ := sound.2.tick_leads ready' hn
  obtain ⟨clock₁, devices₁⟩ := clock.leads (S := Devices.Alike) (fun e _ _ h => h.expire d.bank e)
    (.mk steady hvic) leads leads' age age' (sound.1.tick htick).clock (sound.2.tick htick').clock
  rw [htick, htick']
  exact .ok ⟨devices₁, clock₁⟩

theorem Alike.lines (h : Alike b b') : b.lines = b'.lines := by
  obtain ⟨d, vic, c, c', rfl, rfl, steady, hvic, clock⟩ := h.parts
  simp only [Board.lines, hvic.interrupting]

/-- No processor tells apart two boards that are alike, and nothing it does to them fails. -/
theorem simulates : Bus.Simulates False Alike where
  read h := h.read
  write h := h.write
  tick h _ hn := h.tick hn
  lines h := h.lines

/-! ## Reset -/

/-- What a reset leaves as it is, and two boards have in common. -/
structure Resembles (b b' : Board) : Prop where
  ram : b.devices.memory.ram = b'.devices.memory.ram
  roms : b.devices.memory.roms = b'.devices.memory.roms
  colours : b.devices.memory.colours = b'.devices.memory.colours
  standard : b.devices.vic.standard = b'.devices.vic.standard
  cia1 : b.devices.cia1.config = b'.devices.cia1.config
  cia2 : b.devices.cia2.config = b'.devices.cia2.config
  via : b.devices.via.isSome = b'.devices.via.isSome
  noRtc : b.devices.rtc = none ∧ b'.devices.rtc = none
  keyboard : b.devices.keyboard = b'.devices.keyboard
  joystick1 : b.devices.joystick1 = b'.devices.joystick1
  joystick2 : b.devices.joystick2 = b'.devices.joystick2
  lastValue : b.devices.lastValue = b'.devices.lastValue

/-- The alarms that a reset takes away or sets, and no others but those of a real-time clock. -/
def resetEvents (fitted : Bool) : Event → Bool
  | .cia1 _ | .cia2 _ => true
  | .via _ => fitted
  | .rtc _ | .rasterLine => false

/-- A reset chip by chip. -/
theorem reset_eq (b : Board) : b.reset = do
    let (cia1, clock) ← b.devices.cia1.reset Event.cia1 b.clock
    let (cia2, clock) ← b.devices.cia2.reset Event.cia2 clock
    let (via, clock) := resetVia b.devices.via clock
    let (_, clock) ← clock.setAlarmIn b.devices.vic.standard.cyclesPerLine Event.rasterLine
    return ⟨{ b.devices with
      memory := b.devices.memory.reset
      rtc := b.devices.rtc.map Rtc.resetLines
      vic := b.devices.vic.reset
      cia1, cia2, via
      rtcLines := 0
      frameComplete := false }, clock⟩ := by
  obtain ⟨⟨memory, vic, cia1, cia2, via, rest⟩, clock⟩ := b
  cases via <;> rfl

theorem resetVia_alike {via via' : Option Via} {c c' : Clock Event}
    (fitted : via.isSome = via'.isSome) (h : Clock.Alike (resetEvents false) c c') :
    Beside (Clock.Alike (resetEvents (resetVia via c).1.isSome)) (resetVia via c)
      (resetVia via' c') := by
  cases via with
  | none =>
    obtain rfl : via' = none := by simpa using fitted
    exact ⟨rfl, h⟩
  | some v =>
    obtain ⟨v', rfl⟩ := Option.isSome_iff_exists.mp fitted.symm
    obtain ⟨-, alike⟩ := Via.reset_alike Event.via h
      fun e (he : resetEvents true e = true) => by cases e <;> simp [Via.Owns, resetEvents] at he ⊢
    exact ⟨rfl, alike⟩

/-- Behind a reset the devices are the same, but for what the video chip keeps, and so are all the
alarms that a reset has to do with. -/
theorem Resembles.reset_devices (h : Resembles b b') (sound : b.Sound) (sound' : b'.Sound) :
    Together False (fun r r' => r.devices.Alike r'.devices ∧
      Clock.Alike (update (resetEvents r.devices.via.isSome) .rasterLine true) r.clock r'.clock)
      b.reset b'.reset := by
  have paced1 : b.devices.cia1.config.Paced := sound.devices.cia1
  have paced2 : b.devices.cia2.config.Paced := sound.devices.cia2
  have room : b.devices.vic.standard.cyclesPerLine ≤ Cycle.headroom := by
    cases b.devices.vic.standard <;> decide
  have memory : b.devices.memory.reset = b'.devices.memory.reset := by
    simp only [Memory.reset, h.ram, h.roms, h.colours]
  -- The adapters, one after the other; what else waits does not count yet.
  have first : Together False (Beside (Clock.Alike fun e => e matches .cia1 _))
      (b.devices.cia1.reset Event.cia1 b.clock) (b'.devices.cia1.reset Event.cia1 b'.clock) :=
    Cia.reset_alike Event.cia1 (.none sound.clock sound'.clock) h.cia1 paced1
      fun e he => by cases e <;> simp [Cia.Owns] at he ⊢
  have second : ∀ {c c' : Clock Event}, Clock.Alike (fun e => e matches .cia1 _) c c' →
      Together False (Beside (Clock.Alike (resetEvents false)))
        (b.devices.cia2.reset Event.cia2 c) (b'.devices.cia2.reset Event.cia2 c') := fun alike =>
    Cia.reset_alike Event.cia2 alike h.cia2 paced2
      fun e he => by cases e <;> simp [Cia.Owns, resetEvents] at he ⊢
  rw [reset_eq, reset_eq, ← h.standard]
  refine (first.of_left fun p hp => (Cia.reset_ok Event.cia1 sound.clock hp).2).bind ?_
  rintro ⟨cia1, c⟩ ⟨_, c'⟩ ⟨⟨rfl, alike⟩, kept1⟩
  refine ((second alike).of_left fun p hp => (Cia.reset_ok Event.cia2 alike.left hp).2).bind ?_
  rintro ⟨cia2, c⟩ ⟨_, c'⟩ ⟨⟨rfl, alike⟩, kept2⟩
  obtain ⟨via, c, c', hvia, hvia', alike⟩ := (resetVia_alike h.via alike).parts
  rw [hvia] at alike
  simp only [hvia, hvia']
  refine (alike.setAlarmIn room .rasterLine).andThen fun _ _ alike => ⟨?_, alike⟩
  simp only [h.noRtc, memory, ← h.keyboard, ← h.joystick1, ← h.joystick2, ← h.lastValue]
  exact .mk ⟨rfl, kept1 ▸ paced1, kept2 ▸ paced2⟩
    (Vic.reset_alike sound.devices.vic sound'.devices.vic h.standard)

/-- A reset forgets all that two boards do not have in common. -/
theorem Resembles.reset (h : Resembles b b') (sound : b.Sound) (sound' : b'.Sound)
    (scheduled : b.Scheduled) (scheduled' : b'.Scheduled) :
    Together False Alike b.reset b'.reset := by
  obtain ⟨r, r', hr, hr', devices, clock⟩ := (h.reset_devices sound sound').exists_ok
  have owners := (scheduled.reset hr).owners
  have owners' := (scheduled'.reset hr').owners
  obtain ⟨d, vic, c, c', rfl, rfl, steady, -⟩ := devices.parts
  rw [hr, hr']
  refine .ok ⟨devices, clock.whole fun e he => ?_⟩
  cases e with
  | cia1 e => simp [resetEvents] at he
  | cia2 e => simp [resetEvents] at he
  | via e =>
    have none : d.via = none := by simpa [resetEvents] using he
    exact ⟨owners.noVia none e, owners'.noVia none e⟩
  | rtc e =>
    cases e
    exact ⟨owners.rtc.trans (by simp [steady.rtc]), owners'.rtc.trans (by simp [steady.rtc])⟩
  | rasterLine => simp at he

end C64.Board
