import C64.Proofs.Board.Likeness
import C64.Proofs.Board.Making
import C64.Proofs.Cia.Dial
import C64.Proofs.Cpu.Footprint
import C64.Proofs.Vic.Damage

/-!
# Boards that run on

A board is `Live` when it is made to a standard and a configuration, every alarm on it leaves the
clock room, its clocks show what clocks can show, and the damage that its video chip has noted lies
inside the lines. Then it can be
built, fitted out, read and written, and none of that fails. All of it happens between two cycles:
what only time moves stays as it is (`stand`), and each write sets two alarms at most.
-/

namespace C64.Board

open Clock Function

/-- What only time moves. -/
structure Stand where
  now : Nat
  base : Nat
  rebases : Nat
  /-- The counter at which the raster line ends. -/
  rasterDue : Option Nat
  standard : VideoStandard
  rasterLine : Nat
  frame : Nat
  frameComplete : Bool

/-- Where the clock and the raster of a board stand. -/
def stand (b : Board) : Stand where
  now := b.clock.now
  base := b.clock.base
  rebases := b.clock.rebases
  rasterDue := b.clock.due? .rasterLine
  standard := b.devices.vic.standard
  rasterLine := b.devices.vic.rasterLine
  frame := b.devices.vic.frame
  frameComplete := b.devices.frameComplete

/-- Neither adapter shows a time that no write could have set. -/
structure Devices.Dialled (d : Devices) : Prop where
  cia1 : d.cia1.tod.Dialled
  cia2 : d.cia2.tod.Dialled

/-- What is known of a board on which nothing fails. -/
structure Live (standard : VideoStandard) (cia : Cia.Config) (b : Board) : Prop where
  fit : b.Fit standard cia
  paced : b.devices.Paced
  dialled : b.devices.Dialled
  trailed : ∃ view, Vic.Trailed standard view b.devices.vic

variable {standard : VideoStandard} {cia : Cia.Config} {d d' : Devices} {b b' : Board}

/-- Only how long a second lasts counts. -/
theorem Devices.Paced.congr (h : d.Paced)
    (rtc : d'.rtc.map Rtc.cyclesPerSecond = d.rtc.map Rtc.cyclesPerSecond) : d'.Paced := by
  intro r hr
  rw [Option.mem_def.mp hr] at rtc
  obtain ⟨old, hold, same⟩ := Option.map_eq_some_iff.mp rtc.symm
  rw [← same]
  exact h old hold

/-- A chip that moves alarms of its own leaves the clock and the raster where they stand. -/
theorem stand_of_tends {own : Event → Prop} {clock clock' : Clock Event}
    (h : Tends own clock clock') (other : ¬own .rasterLine) (d : Devices) :
    stand ⟨d, clock'⟩ = stand ⟨d, clock⟩ := by
  simp only [stand, h.now_eq, h.base_eq, h.rebases_eq, h.dues _ other]

theorem stand_setAlarm (d : Devices) (clock : Clock Event) (due : Nat) :
    stand ⟨d, clock.setAlarm due .rasterLine⟩ = { stand ⟨d, clock⟩ with rasterDue := some due } := by
  simp only [stand, due?_setAlarm_self]
  rfl

/-! ## Reads -/

theorem readChip_frame (b : Board) (address : UInt16) : ∃ vic cia1 cia2 via,
    (b.readChip address).2 = ⟨{ b.devices with vic, cia1, cia2, via }, b.clock⟩ ∧
      (vic = b.devices.vic ∨ ∃ r, vic = (b.devices.vic.read r).2) ∧
      cia1.tod = b.devices.cia1.tod ∧ cia2.tod = b.devices.cia2.tod := by
  unfold readChip
  simp only []
  split
  · exact ⟨_, _, _, _, rfl, .inr ⟨_, rfl⟩, rfl, rfl⟩
  · exact ⟨_, _, _, _, rfl, .inl rfl, Cia.read_tod Event.cia1 _ b.clock _, rfl⟩
  · exact ⟨_, _, _, _, rfl, .inl rfl, rfl, Cia.read_tod Event.cia2 _ b.clock _⟩
  · split <;> exact ⟨_, _, _, _, rfl, .inl rfl, rfl, rfl⟩
  all_goals exact ⟨_, _, _, _, rfl, .inl rfl, rfl, rfl⟩

/-- A read moves the chips and the byte last on the bus. -/
theorem read_frame (b : Board) (address : UInt16) : ∃ vic cia1 cia2 via lastValue,
    (b.read address).2 = ⟨{ b.devices with vic, cia1, cia2, via, lastValue }, b.clock⟩ ∧
      (vic = b.devices.vic ∨ ∃ r, vic = (b.devices.vic.read r).2) ∧
      cia1.tod = b.devices.cia1.tod ∧ cia2.tod = b.devices.cia2.tod := by
  obtain ⟨vic, cia1, cia2, via, heq, kept⟩ := b.readChip_frame address
  unfold read
  simp only []
  split
  · rw [heq]
    exact ⟨vic, cia1, cia2, via, _, rfl, kept⟩
  · exact ⟨_, _, _, _, _, rfl, .inl rfl, rfl, rfl⟩

theorem vic_read_frame (v : Vic) (r : UInt8) : (v.read r).2.standard = v.standard ∧
    (v.read r).2.rasterLine = v.rasterLine ∧ (v.read r).2.frame = v.frame := by
  unfold Vic.read
  simp only []
  split <;> exact ⟨rfl, rfl, rfl⟩

theorem stand_read (b : Board) (address : UInt16) : (b.read address).2.stand = b.stand := by
  obtain ⟨vic, cia1, cia2, via, lastValue, heq, hvic, -⟩ := b.read_frame address
  have same : vic.standard = b.devices.vic.standard ∧
      vic.rasterLine = b.devices.vic.rasterLine ∧ vic.frame = b.devices.vic.frame := by
    rcases hvic with rfl | ⟨r, rfl⟩
    · exact ⟨rfl, rfl, rfl⟩
    · exact vic_read_frame _ r
  obtain ⟨standard, rasterLine, frame⟩ := same
  rw [heq]
  simp only [stand, standard, rasterLine, frame]

theorem Live.read (h : b.Live standard cia) (address : UInt16) :
    (b.read address).2.Live standard cia := by
  have fit := h.fit.read address
  obtain ⟨vic, cia1, cia2, via, lastValue, heq, hvic, tod1, tod2⟩ := b.read_frame address
  rw [heq] at fit ⊢
  refine ⟨fit, h.paced.congr rfl, ⟨tod1 ▸ h.dialled.cia1, tod2 ▸ h.dialled.cia2⟩, ?_⟩
  obtain ⟨view, trailed⟩ := h.trailed
  rcases hvic with rfl | ⟨r, rfl⟩
  · exact ⟨view, trailed⟩
  · exact ⟨view, trailed.read r⟩

/-! ## Writes -/

theorem vic_write_frame (v : Vic) (r value : UInt8) : (v.write r value).standard = v.standard ∧
    (v.write r value).rasterLine = v.rasterLine ∧ (v.write r value).frame = v.frame := by
  unfold Vic.write
  simp only []
  split <;> exact ⟨rfl, rfl, rfl⟩

/-- What a write leaves behind, apart from what is known of every board. -/
structure Written (standard : VideoStandard) (b b' : Board) : Prop where
  rtc : b'.devices.rtc.map Rtc.cyclesPerSecond = b.devices.rtc.map Rtc.cyclesPerSecond
  dialled : b.devices.Dialled → b'.devices.Dialled
  trailed : (∃ view, Vic.Trailed standard view b.devices.vic) →
    ∃ view, Vic.Trailed standard view b'.devices.vic
  stand : b'.stand = b.stand
  numbered : b'.clock.nextOrder ≤ b.clock.nextOrder + 2

theorem Fit.writeChip_succeeds (h : b.Fit standard cia) (address : UInt16) (value : UInt8) :
    Succeeds (Written standard b) (b.writeChip address value) := by
  obtain ⟨sound, scheduled, made⟩ := h
  obtain ⟨d, clock⟩ := b
  have self : Clock.Alike every clock clock := ⟨sound.clock, sound.clock, rfl⟩
  unfold Board.writeChip
  simp only []
  cases Device.behind address with
  | vic =>
    obtain ⟨standard_eq, rasterLine, frame⟩ := vic_write_frame d.vic (lowByte address) value
    refine .ok ⟨rfl, fun dialled => ⟨dialled.1, dialled.2⟩,
      fun ⟨view, trailed⟩ => ⟨view, trailed.write _ _⟩, ?_, Nat.le_add_right _ 2⟩
    simp only [stand, standard_eq, rasterLine, frame]
  | sound => exact .ok ⟨rfl, id, id, rfl, Nat.le_add_right _ 2⟩
  | colours =>
    exact .ok ⟨rfl, fun dialled => ⟨dialled.1, dialled.2⟩, id, rfl, Nat.le_add_right _ 2⟩
  | cia1 =>
    obtain ⟨⟨cia1, clock'⟩, -, hrun, -, -⟩ :=
      (Cia.write_alike Event.cia1 self sound.devices.cia1 (lowByte address) value).exists_ok
    have tends := (Cia.write_scheduled Event.cia1 cia1_injective scheduled.owners.cia1 hrun).2
    rw [hrun]
    exact .ok ⟨rfl,
      fun dialled => ⟨Cia.dialled_write Event.cia1 dialled.cia1 hrun, dialled.2⟩, id,
      stand_of_tends tends (by simp [Cia.Owns]) _, Cia.write_nextOrder Event.cia1 hrun⟩
  | cia2 =>
    obtain ⟨⟨cia2, clock'⟩, -, hrun, -, -⟩ :=
      (Cia.write_alike Event.cia2 self sound.devices.cia2 (lowByte address) value).exists_ok
    have tends := (Cia.write_scheduled Event.cia2 cia2_injective scheduled.owners.cia2 hrun).2
    rw [hrun]
    exact .ok ⟨rfl,
      fun dialled => ⟨dialled.1, Cia.dialled_write Event.cia2 dialled.cia2 hrun⟩, id,
      stand_of_tends tends (by simp [Cia.Owns]) _, Cia.write_nextOrder Event.cia2 hrun⟩
  | rtc =>
    simp only []
    split
    · next rtc fitted =>
      refine .ok ⟨?_, fun dialled => ⟨dialled.1, dialled.2⟩, id, rfl, Nat.le_add_right _ 2⟩
      simp only [fitted, Option.map_some, Rtc.setLines_cyclesPerSecond]
    · exact .ok ⟨rfl, fun dialled => ⟨dialled.1, dialled.2⟩, id, rfl, Nat.le_add_right _ 2⟩
  | via =>
    simp only []
    split
    · next via fitted =>
      obtain ⟨⟨via', clock'⟩, -, hrun, -, -⟩ :=
        (Via.write_alike Event.via self via (lowByte address) value).exists_ok
      have tends :=
        (Via.write_scheduled Event.via via_injective (scheduled.owners.via via fitted) hrun).2
      rw [hrun]
      exact .ok ⟨rfl, fun dialled => ⟨dialled.1, dialled.2⟩, id,
        stand_of_tends tends (by simp [Via.Owns]) _,
        Nat.le_succ_of_le (Via.write_nextOrder Event.via hrun)⟩
    · exact .ok ⟨rfl, fun dialled => ⟨dialled.1, dialled.2⟩, id, rfl, Nat.le_add_right _ 2⟩

theorem Fit.withLastValue (h : b.Fit standard cia) (value : UInt8) :
    Fit standard cia { b with devices.lastValue := value } :=
  ⟨h.sound.withLastValue value, h.scheduled.withLastValue value, h.made.congr rfl rfl rfl⟩

/-- A write succeeds on every board made to a standard. -/
theorem Fit.write_succeeds (h : b.Fit standard cia) (address : UInt16) (value : UInt8) :
    Succeeds (fun b' => Written standard b b' ∧ b'.Fit standard cia) (b.write address value) := by
  have chips := (h.withLastValue value).writeChip_succeeds address value
  refine Succeeds.and ?_ fun _ hrun => h.write hrun
  obtain ⟨d, clock⟩ := b
  unfold Board.write
  simp only []
  split
  · exact chips.mono fun _ w =>
      ⟨w.rtc, fun dialled => w.dialled ⟨dialled.cia1, dialled.cia2⟩, w.trailed, w.stand, w.numbered⟩
  · exact .ok ⟨rfl, fun dialled => ⟨dialled.cia1, dialled.cia2⟩, id, rfl, Nat.le_add_right _ 2⟩

/-- A write succeeds, moves nothing that only time moves, and sets two alarms at most. -/
theorem Live.write (h : b.Live standard cia) (address : UInt16) (value : UInt8) :
    Succeeds (fun b' => b'.Live standard cia ∧ b'.stand = b.stand ∧
      b'.clock.nextOrder ≤ b.clock.nextOrder + 2) (b.write address value) := by
  refine (h.fit.write_succeeds address value).mono ?_
  rintro b' ⟨w, fit⟩
  exact ⟨⟨fit, h.paced.congr w.rtc, w.dialled h.dialled, w.trailed h.trailed⟩, w.stand, w.numbered⟩

/-- Whatever the processor reads and writes, a board stands where it stood. -/
theorem fit_sustains (b₀ : Board) :
    Bus.Sustains fun _ (b : Board) => b.Fit standard cia ∧ b.stand = b₀.stand where
  read := by
    rintro _ b ⟨fit, stands⟩ address
    exact ⟨fit.read address, (b.stand_read address).trans stands⟩
  write := by
    rintro _ b ⟨fit, stands⟩ address value
    exact (fit.write_succeeds address value).mono fun _ ⟨w, fit'⟩ => ⟨fit', w.stand.trans stands⟩

/-- Whatever the processor reads and writes, the board stays live and stands where it stood. -/
theorem live_sustains (b₀ : Board) :
    Bus.Sustains fun k (b : Board) => b.Live standard cia ∧ b.stand = b₀.stand ∧
      b.clock.nextOrder ≤ b₀.clock.nextOrder + 2 * k where
  read := by
    rintro k b ⟨live, stands, numbered⟩ address
    refine ⟨live.read address, (b.stand_read address).trans stands, ?_⟩
    obtain ⟨vic, cia1, cia2, via, lastValue, heq, -⟩ := b.read_frame address
    show (b.read address).2.clock.nextOrder ≤ _
    rw [heq]
    exact numbered
  write := by
    rintro k b ⟨live, stands, numbered⟩ address value
    refine (live.write address value).mono ?_
    rintro b' ⟨live', stands', numbered'⟩
    exact ⟨live', stands'.trans stands, by omega⟩

/-! ## Building -/

/-- An adapter has started: its time of day has set an alarm, and nothing else has moved. -/
structure Started (event : Cia.Event → Event) (clock : Clock Event) (out : Cia × Clock Event) :
    Prop where
  reachable : out.2.Reachable
  tends : Tends (Cia.Owns event) clock out.2
  numbered : out.2.nextOrder = clock.nextOrder + 1
  dialled : out.1.tod.Dialled

theorem cia_new_started (event : Cia.Event → Event) {clock : Clock Event}
    (reach : clock.Reachable) (paced : cia.Paced) :
    Succeeds (Started event clock) (Cia.new event cia clock) := by
  have self : Clock.Alike every clock clock := ⟨reach, reach, rfl⟩
  obtain ⟨clock', -, htod, -, -⟩ :=
    (Cia.scheduleTod_alike event self (c := Cia.powerOn cia) paced).exists_ok
  have hnew : Cia.new event cia clock = .ok (Cia.powerOn cia, clock') := by
    unfold Cia.new
    simp only []
    rw [htod]
    rfl
  exact ⟨_, hnew, (Cia.new_ok event reach hnew).1, (Cia.scheduleTod_ok event htod).2,
    Cia.scheduleTod_nextOrder event htod, Cia.dialled_new event hnew⟩

/-- A board is built with three alarms, its raster at the start of the first line. -/
theorem new_live (memory : Memory) (standard : VideoStandard) (paced : cia.Paced) :
    Succeeds (fun b => b.Live standard cia ∧
      b.stand = ⟨0, 0, 0, some standard.cyclesPerLine, standard, 0, 0, false⟩ ∧
      b.clock.nextOrder = 3) (Board.new memory standard cia) := by
  have built : Succeeds (fun b : Board => b.devices.Paced ∧ b.devices.Dialled ∧
      (∃ view, Vic.Trailed standard view b.devices.vic) ∧
      b.stand = ⟨0, 0, 0, some standard.cyclesPerLine, standard, 0, 0, false⟩ ∧
      b.clock.nextOrder = 3) (Board.new memory standard cia) := by
    have room : standard.cyclesPerLine ≤ Cycle.headroom := by cases standard <;> decide
    obtain ⟨⟨cia1, clock₁⟩, h₁, first⟩ := cia_new_started Event.cia1 zero_reachable paced
    obtain ⟨⟨cia2, clock₂⟩, h₂, second⟩ := cia_new_started Event.cia2 first.reachable paced
    have now_eq : clock₂.now = 0 := second.tends.now_eq.trans first.tends.now_eq
    have base_eq : clock₂.base = 0 := second.tends.base_eq.trans first.tends.base_eq
    have rebases_eq : clock₂.rebases = 0 := second.tends.rebases_eq.trans first.tends.rebases_eq
    have numbered : clock₂.nextOrder = 2 := second.numbered.trans (congrArg (· + 1) first.numbered)
    unfold Board.new
    rw [h₁, ok_bind]
    simp only []
    rw [h₂, ok_bind]
    simp only []
    rw [second.reachable.wellFormed.setAlarmIn_eq room]
    refine .ok ⟨by simp [Devices.Paced], ⟨first.dialled, second.dialled⟩, ⟨_, .new standard⟩, ?_,
      congrArg (· + 1) numbered⟩
    rw [stand_setAlarm]
    simp only [stand, now_eq, base_eq, rebases_eq, Nat.zero_add]
    rfl
  refine (built.and fun _ hrun => Fit.new paced hrun).mono ?_
  rintro b ⟨⟨slow, dialled, trailed, stands, numbered⟩, fit⟩
  exact ⟨⟨fit, slow, dialled, trailed⟩, stands, numbered⟩

/-! ## Fitting out -/

theorem stand_detachRtc (b : Board) : b.detachRtc.stand = b.stand := by
  unfold detachRtc
  split
  · have moved : Tends (· = .rtc .tick) b.clock (b.clock.cancel (.rtc .tick)) := .cancel _ rfl
    exact stand_of_tends moved (by simp) b.devices
  · rfl

theorem Live.detachRtc (h : b.Live standard cia) : b.detachRtc.Live standard cia := by
  have fit := h.fit.detachRtc
  unfold Board.detachRtc at fit ⊢
  split
  · next fitted =>
    rw [if_pos fitted] at fit
    exact ⟨fit, by simp [Devices.Paced], ⟨h.dialled.cia1, h.dialled.cia2⟩, h.trailed⟩
  · exact h

/-- A real-time clock is fitted, or the place stays empty. -/
theorem Live.attachRtc (h : b.Live standard cia) {config : Rtc.Config}
    (slow : config.cyclesPerSecond ≤ Cycle.headroom) :
    Succeeds (fun out => out.2.Live standard cia ∧ out.2.stand = b.stand) (b.attachRtc config) := by
  have empty := h.detachRtc
  have fitted : Succeeds (fun out : Option Rtc.ConfigError × Board => out.2.devices.Paced ∧
      out.2.devices.Dialled ∧ (∃ view, Vic.Trailed standard view out.2.devices.vic) ∧
      out.2.stand = b.stand)
      (b.attachRtc config) := by
    unfold Board.attachRtc Rtc.new
    simp only []
    split
    · exact .ok ⟨empty.paced, empty.dialled, empty.trailed, b.stand_detachRtc⟩
    · next valid =>
      have set := empty.fit.sound.clock.wellFormed.setAlarmIn_eq slow (Event.rtc .tick)
      have moved := Tends.setAlarmIn (rfl : (· = Event.rtc .tick) (Event.rtc .tick))
        (Rtc.Config.one_le_rate valid) set
      rw [set]
      refine .ok ⟨?_, ⟨empty.dialled.cia1, empty.dialled.cia2⟩, empty.trailed, ?_⟩
      · rintro _ ⟨⟩
        exact slow
      · exact (stand_of_tends moved (by simp) _).trans b.stand_detachRtc
  refine (fitted.and fun _ hrun => h.fit.attachRtc hrun).mono ?_
  rintro ⟨error, b'⟩ ⟨⟨paced, dialled, trailed, stands⟩, fit⟩
  exact ⟨⟨fit, paced, dialled, trailed⟩, stands⟩

theorem Live.attachVia (h : b.Live standard cia) : b.attachVia.Live standard cia := by
  have fit := h.fit.attachVia
  unfold Board.attachVia at fit ⊢
  split
  · exact h
  · next missing =>
    rw [if_neg missing] at fit
    exact ⟨fit, h.paced.congr rfl, ⟨h.dialled.cia1, h.dialled.cia2⟩, h.trailed⟩

theorem stand_attachVia (b : Board) : b.attachVia.stand = b.stand := by
  unfold attachVia
  split <;> rfl

theorem Live.detachVia (h : b.Live standard cia) : b.detachVia.Live standard cia := by
  have fit := h.fit.detachVia
  unfold Board.detachVia at fit ⊢
  split
  · next fitted =>
    rw [if_pos fitted] at fit
    exact ⟨fit, h.paced.congr rfl, ⟨h.dialled.1, h.dialled.2⟩, h.trailed⟩
  · exact h

theorem stand_detachVia (b : Board) : b.detachVia.stand = b.stand := by
  unfold detachVia
  split
  · exact stand_of_tends (Via.reset_tends Event.via b.clock) (by simp [Via.Owns]) b.devices
  · rfl

/-! ## Resets -/

theorem cia_reset_started (event : Cia.Event → Event) (inj : Injective event) {c : Cia}
    {clock : Clock Event} (reach : clock.Reachable) (paced : c.config.Paced) :
    Succeeds (Started event clock) (c.reset event clock) := by
  have cleared := ((reach.cancel (event (.timer .a))).cancel (event (.timer .b))).cancel (event .tod)
  have started : Succeeds _ (c.reset event clock) := cia_new_started event cleared paced
  refine (started.and fun _ hreset => (Cia.reset_scheduled event inj hreset).2).mono ?_
  rintro ⟨c', clock'⟩ ⟨⟨reachable, -, numbered, dialled⟩, tends⟩
  exact ⟨reachable, tends, numbered, dialled⟩

theorem resetVia_tends (via : Option Via) {clock : Clock Event} (reach : clock.Reachable) :
    Tends (Via.Owns Event.via) clock (resetVia via clock).2 ∧
      (resetVia via clock).2.nextOrder = clock.nextOrder ∧
      (resetVia via clock).2.Reachable := by
  cases via with
  | none => exact ⟨.refl clock, rfl, reach⟩
  | some via => exact ⟨Via.reset_tends Event.via clock, rfl, Via.reset_reachable Event.via reach⟩

/-- A reset sets three alarms and starts the first line of a frame. The cycles go on, and so do the
frames. -/
theorem Live.reset (h : b.Live standard cia) :
    Succeeds (fun b' => b'.Live standard cia ∧
      b'.stand = { b.stand with
        rasterDue := some (b.clock.now + standard.cyclesPerLine)
        rasterLine := 0
        frameComplete := false } ∧
      b'.clock.nextOrder = b.clock.nextOrder + 3) b.reset := by
  have sound := h.fit.sound
  have reset : Succeeds (fun b' : Board => b'.devices.Paced ∧ b'.devices.Dialled ∧
      (∃ view, Vic.Trailed standard view b'.devices.vic) ∧
      b'.stand = { b.stand with
        rasterDue := some (b.clock.now + standard.cyclesPerLine)
        rasterLine := 0
        frameComplete := false } ∧
      b'.clock.nextOrder = b.clock.nextOrder + 3) b.reset := by
    have room : standard.cyclesPerLine ≤ Cycle.headroom := by cases standard <;> decide
    obtain ⟨⟨cia1, clock₁⟩, h₁, first⟩ :=
      cia_reset_started Event.cia1 cia1_injective sound.clock sound.devices.cia1
    obtain ⟨⟨cia2, clock₂⟩, h₂, second⟩ :=
      cia_reset_started Event.cia2 cia2_injective first.reachable sound.devices.cia2
    obtain ⟨third, same, reach⟩ := resetVia_tends b.devices.via second.reachable
    have now_eq : (resetVia b.devices.via clock₂).2.now = b.clock.now :=
      (third.now_eq.trans second.tends.now_eq).trans first.tends.now_eq
    have base_eq : (resetVia b.devices.via clock₂).2.base = b.clock.base :=
      (third.base_eq.trans second.tends.base_eq).trans first.tends.base_eq
    have rebases_eq : (resetVia b.devices.via clock₂).2.rebases = b.clock.rebases :=
      (third.rebases_eq.trans second.tends.rebases_eq).trans first.tends.rebases_eq
    have numbered : (resetVia b.devices.via clock₂).2.nextOrder = b.clock.nextOrder + 2 :=
      (same.trans second.numbered).trans (congrArg (· + 1) first.numbered)
    obtain ⟨view, trailed⟩ := h.trailed
    rw [reset_eq, h₁, ok_bind]
    simp only []
    rw [h₂, ok_bind]
    simp only []
    rw [h.fit.made.vic, reach.wellFormed.setAlarmIn_eq room]
    refine .ok ⟨?_, ⟨first.dialled, second.dialled⟩, ⟨view, trailed.reset⟩, ?_,
      congrArg (· + 1) numbered⟩
    · refine h.paced.congr ?_
      rw [Option.map_map]
      rfl
    · rw [stand_setAlarm]
      simp only [stand, now_eq, base_eq, rebases_eq]
      rfl
  refine (reset.and fun _ hrun => h.fit.reset hrun).mono ?_
  rintro b' ⟨⟨paced, dialled, trailed, stands, numbered⟩, fit⟩
  exact ⟨⟨fit, paced, dialled, trailed⟩, stands, numbered⟩

end C64.Board
