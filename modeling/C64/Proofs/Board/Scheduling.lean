import C64.Proofs.Board.Alarms
import C64.Proofs.Cia.Scheduling
import C64.Proofs.Via.Scheduling

/-!
# Whose alarms wait

Every alarm that waits on the clock of the board has an owner that asks for it, and every owner's
alarm waits (`Devices.Scheduled`): the raster line and both times of day always, a timer of the
adapters while it counts cycles, the tick while a real-time clock is fitted, and those of the
versatile adapter only while that is. `Board.Scheduled` is what is true between two operations of
the board, whatever they were (`operated_scheduled`): besides that, no alarm is due.

The boards are all that the operations lead to from any configuration (`Board.Operated`), with no
bound on the rates.
-/

namespace C64.Board

open Clock Function

/-! ## Owners -/

/-- What waits is what the devices ask for. -/
structure Devices.Scheduled (d : Devices) (pending : Event → Bool) : Prop where
  rasterLine : pending .rasterLine = true
  cia1 : d.cia1.Scheduled (pending ∘ .cia1)
  cia2 : d.cia2.Scheduled (pending ∘ .cia2)
  rtc : pending (.rtc .tick) = d.rtc.isSome
  via : ∀ v ∈ d.via, v.Scheduled (pending ∘ .via)
  noVia : d.via = none → ∀ e, pending (.via e) = false

/-- The boards that the operations lead to. An attachment may fail, and then leaves the place
empty. -/
inductive Operated : Board → Prop where
  | new {memory : Memory} {standard : VideoStandard} {cia : Cia.Config} {b : Board} :
      new memory standard cia = .ok b → Operated b
  | attachRtc {b b' : Board} {config : Rtc.Config} {error : Option Rtc.ConfigError} :
      Operated b → b.attachRtc config = .ok (error, b') → Operated b'
  | detachRtc {b : Board} : Operated b → Operated b.detachRtc
  | attachVia {b : Board} : Operated b → Operated b.attachVia
  | detachVia {b : Board} : Operated b → Operated b.detachVia
  | reset {b b' : Board} : Operated b → b.reset = .ok b' → Operated b'
  | read {b : Board} (address : UInt16) : Operated b → Operated (b.read address).2
  | write {b b' : Board} {address : UInt16} {value : UInt8} :
      Operated b → b.write address value = .ok b' → Operated b'
  | tick {b b' : Board} {cycles : Nat} : Operated b → b.tick cycles = .ok b' → Operated b'

/-- What is true of the clock of a board between two operations. -/
structure Scheduled (b : Board) : Prop where
  clock : b.clock.Reachable
  owners : b.devices.Scheduled b.clock.isPending
  ahead : b.clock.Ahead

/-! ## Firing -/

/-- Handing an alarm to its chip, when that comes out well, is what `Devices.expire` and
`Devices.again?` say, whatever the devices. -/
theorem fire_ok {bank : Fin 4} {alarm : Alarm Event} {clock clock' : Clock Event} {d d' : Devices}
    (h : fire bank alarm clock d = .ok (clock', d')) :
    clock.setAgain alarm.event alarm.due (d.again? alarm.event) = .ok clock' ∧
      d' = d.expire bank alarm.event := by
  obtain ⟨due, e⟩ := alarm
  obtain ⟨memory, vic, cia1, cia2, via, rtc, rest⟩ := d
  cases e with
  | cia1 e =>
    obtain ⟨⟨cia1', clock₁⟩, halarm, hret⟩ := bind_eq_ok.mp h
    cases hret
    obtain ⟨hset, rfl⟩ := Cia.onAlarm_ok Event.cia1 halarm
    exact ⟨hset, rfl⟩
  | cia2 e =>
    obtain ⟨⟨cia2', clock₁⟩, halarm, hret⟩ := bind_eq_ok.mp h
    cases hret
    obtain ⟨hset, rfl⟩ := Cia.onAlarm_ok Event.cia2 halarm
    exact ⟨hset, rfl⟩
  | via e =>
    cases via with
    | none => cases h; exact ⟨rfl, rfl⟩
    | some via =>
      obtain ⟨⟨via', clock₁⟩, halarm, hret⟩ := bind_eq_ok.mp h
      cases hret
      rw [Via.onAlarm_eq] at halarm
      obtain ⟨clock₂, hset, hret⟩ := bind_eq_ok.mp halarm
      cases hret
      exact ⟨hset, rfl⟩
  | rtc e =>
    cases e
    cases rtc with
    | none => cases h; exact ⟨rfl, rfl⟩
    | some rtc =>
      obtain ⟨⟨rtc', clock₁⟩, halarm, hret⟩ := bind_eq_ok.mp h
      cases hret
      rw [Rtc.onAlarm_eq] at halarm
      obtain ⟨clock₂, hset, hret⟩ := bind_eq_ok.mp halarm
      cases hret
      exact ⟨hset, rfl⟩
  | rasterLine =>
    obtain ⟨next, hadd, h⟩ := bind_eq_ok.mp h
    obtain ⟨⟨ended, vic'⟩, hend, hret⟩ := bind_eq_ok.mp h
    cases hret
    refine ⟨?_, ?_⟩
    · show (do return clock.setAlarm (← Cycle.add due _) _) = _
      rw [hadd]
      rfl
    · show _ = Devices.closeLine bank _
      unfold Devices.closeLine
      rw [hend]

section Frames

variable {d : Devices} {pending pending' : Event → Bool}

/-- Only the chips with alarms have a say. -/
theorem Devices.Scheduled.congr (h : d.Scheduled pending) {d' : Devices} (cia1 : d'.cia1 = d.cia1)
    (cia2 : d'.cia2 = d.cia2) (via : d'.via = d.via) (rtc : d'.rtc.isSome = d.rtc.isSome) :
    d'.Scheduled pending :=
  ⟨h.rasterLine, cia1 ▸ h.cia1, cia2 ▸ h.cia2, rtc ▸ h.rtc, via ▸ h.via, via ▸ h.noVia⟩

/-- The first adapter changes with its alarms. -/
theorem Devices.Scheduled.withCia1 (h : d.Scheduled pending)
    (others : ∀ e, ¬Cia.Owns Event.cia1 e → pending' e = pending e) {c : Cia}
    (hc : c.Scheduled (pending' ∘ .cia1)) : { d with cia1 := c }.Scheduled pending' := by
  have cia2 : pending' ∘ Event.cia2 = pending ∘ Event.cia2 :=
    funext fun e => others _ (by simp [Cia.Owns])
  have via : ∀ e, pending' (.via e) = pending (.via e) := fun e => others _ (by simp [Cia.Owns])
  refine ⟨?_, hc, cia2 ▸ h.cia2, ?_, fun v hv => ?_, fun hn e => (via e).trans (h.noVia hn e)⟩
  · rw [others _ (by simp [Cia.Owns]), h.rasterLine]
  · rw [others _ (by simp [Cia.Owns]), h.rtc]
  · exact (show pending' ∘ Event.via = pending ∘ Event.via from funext via) ▸ h.via v hv

/-- The second adapter changes with its alarms. -/
theorem Devices.Scheduled.withCia2 (h : d.Scheduled pending)
    (others : ∀ e, ¬Cia.Owns Event.cia2 e → pending' e = pending e) {c : Cia}
    (hc : c.Scheduled (pending' ∘ .cia2)) : { d with cia2 := c }.Scheduled pending' := by
  have cia1 : pending' ∘ Event.cia1 = pending ∘ Event.cia1 :=
    funext fun e => others _ (by simp [Cia.Owns])
  have via : ∀ e, pending' (.via e) = pending (.via e) := fun e => others _ (by simp [Cia.Owns])
  refine ⟨?_, cia1 ▸ h.cia1, hc, ?_, fun v hv => ?_, fun hn e => (via e).trans (h.noVia hn e)⟩
  · rw [others _ (by simp [Cia.Owns]), h.rasterLine]
  · rw [others _ (by simp [Cia.Owns]), h.rtc]
  · exact (show pending' ∘ Event.via = pending ∘ Event.via from funext via) ▸ h.via v hv

/-- The versatile adapter changes, is fitted or taken off, with its alarms. -/
theorem Devices.Scheduled.withVia (h : d.Scheduled pending)
    (others : ∀ e, ¬Via.Owns Event.via e → pending' e = pending e) {via : Option Via}
    (fitted : ∀ v ∈ via, v.Scheduled (pending' ∘ .via))
    (missing : via = none → ∀ e, pending' (.via e) = false) :
    { d with via }.Scheduled pending' := by
  have cia1 : pending' ∘ Event.cia1 = pending ∘ Event.cia1 :=
    funext fun e => others _ (by simp [Via.Owns])
  have cia2 : pending' ∘ Event.cia2 = pending ∘ Event.cia2 :=
    funext fun e => others _ (by simp [Via.Owns])
  refine ⟨?_, cia1 ▸ h.cia1, cia2 ▸ h.cia2, ?_, fitted, missing⟩
  · rw [others _ (by simp [Via.Owns]), h.rasterLine]
  · rw [others _ (by simp [Via.Owns]), h.rtc]

/-- The real-time clock changes, is fitted or taken off, with its alarm. -/
theorem Devices.Scheduled.withRtc (h : d.Scheduled pending)
    (others : ∀ e, e ≠ .rtc .tick → pending' e = pending e) {rtc : Option Rtc}
    (waits : pending' (.rtc .tick) = rtc.isSome) : { d with rtc }.Scheduled pending' := by
  have cia1 : pending' ∘ Event.cia1 = pending ∘ Event.cia1 := funext fun e => others _ (by simp)
  have cia2 : pending' ∘ Event.cia2 = pending ∘ Event.cia2 := funext fun e => others _ (by simp)
  have via : pending' ∘ Event.via = pending ∘ Event.via := funext fun e => others _ (by simp)
  exact ⟨(others _ (by simp)).trans h.rasterLine, cia1 ▸ h.cia1, cia2 ▸ h.cia2, waits,
    fun v hv => via ▸ h.via v hv, fun hn e => (congrFun via e).trans (h.noVia hn e)⟩

end Frames

theorem Devices.Scheduled.expire {d : Devices} {pending : Event → Bool} (h : d.Scheduled pending)
    (bank : Fin 4) {e : Event} (he : pending e = true) :
    (d.expire bank e).Scheduled (update pending e (d.again? e).isSome) := by
  have others : ∀ {own : Event → Prop} (b : Bool), own e → ∀ x, ¬own x →
      update pending e b x = pending x := by
    rintro own b he x hx
    exact update_of_ne (by rintro rfl; exact hx he) ..
  cases e with
  | cia1 e =>
    refine h.withCia1 (others _ (Cia.owns _ e)) ?_
    rw [update_comp_eq_of_injective _ fun _ _ => Event.cia1.inj]
    exact h.cia1.expire he
  | cia2 e =>
    refine h.withCia2 (others _ (Cia.owns _ e)) ?_
    rw [update_comp_eq_of_injective _ fun _ _ => Event.cia2.inj]
    exact h.cia2.expire he
  | via e =>
    obtain ⟨memory, vic, cia1, cia2, via, rest⟩ := d
    cases via with
    | none => exact absurd he (by simp [h.noVia rfl e])
    | some v =>
      refine h.withVia (others _ (Via.owns _ e)) ?_ (by simp)
      rintro _ ⟨⟩
      rw [update_comp_eq_of_injective _ fun _ _ => Event.via.inj]
      exact (h.via v rfl).expire he
  | rtc e =>
    obtain ⟨⟩ := e
    have fitted : d.rtc.isSome = true := h.rtc.symm.trans he
    have same : update pending (.rtc .tick) (d.again? (.rtc .tick)).isSome = pending :=
      update_eq_self_iff.mpr (by simp [Devices.again?, fitted, he])
    rw [same]
    exact h.withRtc (fun _ _ => rfl) (by simp [h.rtc])
  | rasterLine =>
    have same : update pending .rasterLine true = pending := update_eq_self_iff.mpr he.symm
    rw [show (d.again? .rasterLine).isSome = true from rfl, same]
    show (d.closeLine bank).Scheduled pending
    unfold Devices.closeLine
    split
    · exact h.congr rfl rfl rfl rfl
    · exact h

theorem fire_lawful_any (bank : Fin 4) : Handler.Lawful (fire bank) fun _ => True := by
  intro alarm c d c' d' hc _ h
  exact ⟨hc.setAgain (fire_ok h).1, trivial⟩

theorem fire_keeps (bank : Fin 4) :
    Handler.Keeps (fire bank) fun pending (d : Devices) => d.Scheduled pending := by
  intro alarm c c₁ c₂ d d₂ hc hd hpop h
  obtain ⟨hset, rfl⟩ := fire_ok h
  rw [hc.wellFormed.isPending_setAgain hpop hset]
  exact hd.expire bank (hc.wellFormed.isPending_popDue hpop).1

/-! ## Operations -/

theorem cia1_injective : Injective Event.cia1 := fun _ _ => Event.cia1.inj

theorem cia2_injective : Injective Event.cia2 := fun _ _ => Event.cia2.inj

theorem via_injective : Injective Event.via := fun _ _ => Event.via.inj

theorem Scheduled.new {memory : Memory} {standard : VideoStandard} {cia : Cia.Config} {b : Board}
    (h : Board.new memory standard cia = .ok b) : b.Scheduled := by
  obtain ⟨⟨cia1, clock₁⟩, h₁, h⟩ := bind_eq_ok.mp h
  obtain ⟨⟨cia2, clock₂⟩, h₂, h⟩ := bind_eq_ok.mp h
  obtain ⟨⟨due, clock₃⟩, h₃, h⟩ := bind_eq_ok.mp h
  cases h
  have started : Clock.start 0 = .ok (.zero : Clock Event) := rfl
  have r₁ := (Cia.new_ok Event.cia1 (.start started) h₁).1
  have r₂ := (Cia.new_ok Event.cia2 r₁ h₂).1
  obtain ⟨s₁, t₁⟩ := Cia.new_scheduled Event.cia1 cia1_injective h₁ fun _ => rfl
  have fresh : ∀ e, ¬Cia.Owns Event.cia1 e → clock₁.isPending e = false := t₁.others
  obtain ⟨s₂, t₂⟩ := Cia.new_scheduled Event.cia2 cia2_injective h₂ fun _ =>
    fresh _ (by simp [Cia.Owns])
  -- The second adapter leaves the alarms of the first alone, and no other chip has any.
  have first : clock₂.isPending ∘ Event.cia1 = clock₁.isPending ∘ Event.cia1 :=
    funext fun e => t₂.others _ (by simp [Cia.Owns])
  have none : ∀ e, ¬Cia.Owns Event.cia1 e → ¬Cia.Owns Event.cia2 e → clock₂.isPending e = false :=
    fun e o₁ o₂ => (t₂.others e o₂).trans (fresh e o₁)
  have lines : 0 < standard.cyclesPerLine := by cases standard <;> decide
  obtain rfl := setAlarmIn_ok h₃
  refine ⟨r₂.setAlarmIn h₃, ?_, (t₂.ahead (t₁.ahead (by simp [Ahead, zero]))).setAlarm
    (Nat.lt_add_of_pos_right lines) _⟩
  rw [isPending_setAlarm]
  constructor
  case rasterLine => exact update_self ..
  case cia1 => rwa [update_comp_eq_of_forall_ne _ _ (by simp), first]
  case cia2 => rwa [update_comp_eq_of_forall_ne _ _ (by simp)]
  case rtc =>
    rw [update_of_ne (by simp)]
    exact none _ (by simp [Cia.Owns]) (by simp [Cia.Owns])
  case via => simp
  case noVia =>
    intro _ e
    rw [update_of_ne (by simp)]
    exact none _ (by simp [Cia.Owns]) (by simp [Cia.Owns])

theorem Scheduled.withDevices {b : Board} (h : b.Scheduled) {d : Devices}
    (hd : d.Scheduled b.clock.isPending) : Scheduled { b with devices := d } :=
  ⟨h.clock, hd, h.ahead⟩

theorem Scheduled.detachRtc {b : Board} (h : b.Scheduled) : b.detachRtc.Scheduled := by
  unfold Board.detachRtc
  split
  · refine ⟨h.clock.cancel _, ?_, h.ahead.cancel _⟩
    rw [isPending_cancel]
    exact h.owners.withRtc (fun e he => update_of_ne he ..) (by simp)
  · exact h

theorem Scheduled.attachRtc {b b' : Board} {config : Rtc.Config} {error : Option Rtc.ConfigError}
    (h : b.Scheduled) (hrun : b.attachRtc config = .ok (error, b')) : b'.Scheduled := by
  have detached := h.detachRtc
  obtain ⟨built, hnew, hret⟩ := bind_eq_ok.mp hrun
  cases built with
  | error e => cases hret; exact detached
  | ok fitted =>
    obtain ⟨rtc, clock⟩ := fitted
    cases hret
    have rate := (Rtc.new_ok Event.rtc detached.clock hnew).2
    unfold Rtc.new at hnew
    split at hnew
    · exact absurd hnew (by simp)
    · obtain ⟨⟨due, clock₁⟩, hset, hret⟩ := bind_eq_ok.mp hnew
      cases hret
      obtain rfl := setAlarmIn_ok hset
      refine ⟨detached.clock.setAlarmIn hset, ?_,
        detached.ahead.setAlarm (Nat.lt_add_of_pos_right rate) _⟩
      rw [isPending_setAlarm]
      have fitted : ({ b.detachRtc.devices with rtc := some (Rtc.powerOn config) }).Scheduled
          (update b.detachRtc.clock.isPending (.rtc .tick) true) :=
        detached.owners.withRtc (fun e he => update_of_ne he ..) (by simp)
      exact fitted.congr rfl rfl rfl rfl

theorem Scheduled.attachVia {b : Board} (h : b.Scheduled) : b.attachVia.Scheduled := by
  unfold Board.attachVia
  split
  · exact h
  · next hnone =>
    have none : b.devices.via = none := by simpa using hnone
    refine h.withDevices (h.owners.withVia (fun _ _ => rfl) ?_ (by simp))
    rintro _ ⟨⟩ waits
    exact absurd waits (by simp [h.owners.noVia none])

theorem Scheduled.detachVia {b : Board} (h : b.Scheduled) : b.detachVia.Scheduled := by
  unfold Board.detachVia
  split
  · have tends := Via.reset_tends Event.via b.clock
    exact ⟨Via.reset_reachable Event.via h.clock,
      h.owners.withVia tends.others (by simp) fun _ => Via.reset_pending Event.via b.clock,
      tends.ahead h.ahead⟩
  · exact h

/-- The versatile adapter after a reset, where it is fitted. -/
def resetVia (via : Option Via) (clock : Clock Event) : Option Via × Clock Event :=
  match via with
  | some _ => (some .initial, (Via.reset Event.via clock).2)
  | none => (none, clock)

/-- A reset that comes out well, chip by chip. -/
theorem reset_ok {b b' : Board} (h : b.reset = .ok b') :
    ∃ cia1 cia2 clock₁ clock₂ due clock₃,
      b.devices.cia1.reset Event.cia1 b.clock = .ok (cia1, clock₁) ∧
      b.devices.cia2.reset Event.cia2 clock₁ = .ok (cia2, clock₂) ∧
      (resetVia b.devices.via clock₂).2.setAlarmIn b.devices.vic.standard.cyclesPerLine
        Event.rasterLine = .ok (due, clock₃) ∧
      b' = ⟨{ b.devices with
        memory := b.devices.memory.reset
        rtc := b.devices.rtc.map Rtc.resetLines
        vic := b.devices.vic.reset
        cia1, cia2
        via := (resetVia b.devices.via clock₂).1
        rtcLines := 0
        frameComplete := false }, clock₃⟩ := by
  obtain ⟨⟨memory, vic, cia1, cia2, via, rest⟩, clock⟩ := b
  unfold Board.reset at h
  simp only [] at h
  obtain ⟨⟨cia1', clock₁⟩, h₁, h⟩ := bind_eq_ok.mp h
  obtain ⟨⟨cia2', clock₂⟩, h₂, h⟩ := bind_eq_ok.mp h
  cases via with
  | none =>
    obtain ⟨⟨due, clock₃⟩, h₃, hret⟩ := bind_eq_ok.mp h
    cases hret
    exact ⟨_, _, _, _, _, _, h₁, h₂, h₃, rfl⟩
  | some via =>
    obtain ⟨⟨due, clock₃⟩, h₃, hret⟩ := bind_eq_ok.mp h
    cases hret
    exact ⟨_, _, _, _, _, _, h₁, h₂, h₃, rfl⟩

theorem Scheduled.resetVia {b : Board} (h : b.Scheduled) :
    Scheduled ⟨{ b.devices with via := (resetVia b.devices.via b.clock).1 },
      (Board.resetVia b.devices.via b.clock).2⟩ := by
  obtain ⟨⟨memory, vic, cia1, cia2, via, rest⟩, clock⟩ := b
  cases via with
  | none => exact h
  | some via =>
    have tends := Via.reset_tends Event.via clock
    have gone := Via.reset_pending Event.via clock
    refine ⟨Via.reset_reachable Event.via h.clock,
      h.owners.withVia tends.others ?_ (fun _ => gone), tends.ahead h.ahead⟩
    rintro _ ⟨⟩ waits
    exact absurd waits (by simp [gone])

theorem Scheduled.reset {b b' : Board} (h : b.Scheduled) (hrun : b.reset = .ok b') :
    b'.Scheduled := by
  obtain ⟨cia1, cia2, clock₁, clock₂, due, clock₃, h₁, h₂, h₃, rfl⟩ := reset_ok hrun
  obtain ⟨s₁, t₁⟩ := Cia.reset_scheduled Event.cia1 cia1_injective h₁
  obtain ⟨s₂, t₂⟩ := Cia.reset_scheduled Event.cia2 cia2_injective h₂
  have r₁ := (Cia.reset_ok Event.cia1 h.clock h₁).1
  have r₂ := (Cia.reset_ok Event.cia2 r₁ h₂).1
  have adapters : Scheduled ⟨{ b.devices with cia1, cia2 }, clock₂⟩ :=
    ⟨r₂, (h.owners.withCia1 t₁.others s₁).withCia2 t₂.others s₂, t₂.ahead (t₁.ahead h.ahead)⟩
  have chips := adapters.resetVia
  have lines : 0 < b.devices.vic.standard.cyclesPerLine := by
    cases b.devices.vic.standard <;> decide
  obtain rfl := setAlarmIn_ok h₃
  refine ⟨chips.clock.setAlarmIn h₃, ?_,
    chips.ahead.setAlarm (Nat.lt_add_of_pos_right lines) _⟩
  -- The raster line's alarm waited already; it only moves.
  have moved : update (Board.resetVia b.devices.via clock₂).2.isPending .rasterLine true =
      (Board.resetVia b.devices.via clock₂).2.isPending :=
    update_eq_self_iff.mpr chips.owners.rasterLine.symm
  rw [isPending_setAlarm, moved]
  exact chips.owners.congr rfl rfl rfl (by simp)

/-! ## Reads and writes -/

theorem Scheduled.readCia1 {b : Board} (h : b.Scheduled) (register : UInt8) :
    (b.readCia1 register).2.Scheduled := by
  have kept := Cia.read_control Event.cia1 b.devices.scanInput.cia1 b.clock register
  exact h.withDevices ⟨h.owners.rasterLine, h.owners.cia1.of_control kept, h.owners.cia2,
    h.owners.rtc, h.owners.via, h.owners.noVia⟩

theorem Scheduled.readChip {b : Board} (h : b.Scheduled) (address : UInt16) :
    (b.readChip address).2.Scheduled := by
  unfold Board.readChip
  simp only []
  split
  · exact h.withDevices (h.owners.congr rfl rfl rfl rfl)
  · exact h.readCia1 _
  · have kept := Cia.read_control Event.cia2 b.devices.cia2 b.clock (lowByte address)
    exact h.withDevices (h.owners.withCia2 (fun _ _ => rfl) (h.owners.cia2.of_control kept))
  · split
    · next via fitted =>
      refine h.withDevices (h.owners.withVia (fun _ _ => rfl) ?_ (by simp))
      rintro _ ⟨⟩
      exact (h.owners.via via fitted).of_control rfl
    · exact h
  all_goals exact h

theorem Scheduled.withLastValue {b : Board} (h : b.Scheduled) (value : UInt8) :
    Scheduled { b with devices.lastValue := value } :=
  h.withDevices (h.owners.congr rfl rfl rfl rfl)

theorem Scheduled.read {b : Board} (h : b.Scheduled) (address : UInt16) :
    (b.read address).2.Scheduled := by
  unfold Board.read
  simp only []
  cases b.reachesChip address with
  | true => exact (h.readChip address).withLastValue _
  | false => exact h.withLastValue _

theorem Scheduled.writeChip {b b' : Board} (h : b.Scheduled) {address : UInt16} {value : UInt8}
    (hrun : b.writeChip address value = .ok b') : b'.Scheduled := by
  obtain ⟨d, clock⟩ := b
  unfold Board.writeChip at hrun
  simp only [] at hrun
  split at hrun
  · cases hrun; exact h.withDevices (h.owners.congr rfl rfl rfl rfl)
  · cases hrun; exact h
  · cases hrun; exact h.withDevices (h.owners.congr rfl rfl rfl rfl)
  · obtain ⟨⟨cia1, clock₁⟩, hcia, hret⟩ := bind_eq_ok.mp hrun
    cases hret
    obtain ⟨scheduled, tends⟩ := Cia.write_scheduled Event.cia1 cia1_injective h.owners.cia1 hcia
    exact ⟨(Cia.write_ok Event.cia1 h.clock hcia).1, h.owners.withCia1 tends.others scheduled,
      tends.ahead h.ahead⟩
  · obtain ⟨⟨cia2, clock₁⟩, hcia, hret⟩ := bind_eq_ok.mp hrun
    cases hret
    obtain ⟨scheduled, tends⟩ := Cia.write_scheduled Event.cia2 cia2_injective h.owners.cia2 hcia
    exact ⟨(Cia.write_ok Event.cia2 h.clock hcia).1, h.owners.withCia2 tends.others scheduled,
      tends.ahead h.ahead⟩
  · split at hrun
    · next rtc hrtc =>
      cases hrun
      exact h.withDevices (h.owners.congr rfl rfl rfl (by simp [hrtc]))
    · cases hrun; exact h
  · split at hrun
    · next via fitted =>
      obtain ⟨⟨via', clock₁⟩, hvia, hret⟩ := bind_eq_ok.mp hrun
      cases hret
      obtain ⟨scheduled, tends⟩ :=
        Via.write_scheduled Event.via via_injective (h.owners.via via fitted) hvia
      refine ⟨Via.write_reachable Event.via h.clock hvia,
        h.owners.withVia tends.others ?_ (by simp), tends.ahead h.ahead⟩
      rintro _ ⟨⟩
      exact scheduled
    · cases hrun; exact h

theorem Scheduled.write {b b' : Board} (h : b.Scheduled) {address : UInt16} {value : UInt8}
    (hrun : b.write address value = .ok b') : b'.Scheduled := by
  obtain ⟨⟨memory, vic, cia1, cia2, via, rtc, keyboard, joystick1, joystick2, lastValue, rtcLines,
    frameComplete⟩, clock⟩ := b
  unfold Board.write at hrun
  simp only [] at hrun
  split at hrun
  · exact Scheduled.writeChip (h.withLastValue value) hrun
  · cases hrun; exact h.withDevices (h.owners.congr rfl rfl rfl rfl)

/-! ## Time -/

theorem Scheduled.tick {b b' : Board} (h : b.Scheduled) {cycles : Nat}
    (hrun : b.tick cycles = .ok b') : b'.Scheduled := by
  obtain ⟨d, clock⟩ := b
  obtain ⟨⟨clock', d'⟩, hadvance, hret⟩ := bind_eq_ok.mp hrun
  cases hret
  obtain ⟨reached, owners, ahead⟩ :=
    h.clock.advanceWithin_keeps (fire_lawful_any d.bank) (fire_keeps d.bank) h.owners hadvance
  exact ⟨reached, owners, ahead⟩

/-! ## Every operation -/

/-- Between operations every alarm that waits has its owner, every owner has its alarm, and no
alarm is due. -/
theorem operated_scheduled {b : Board} (h : b.Operated) : b.Scheduled := by
  induction h with
  | new hnew => exact .new hnew
  | attachRtc _ hrun ih => exact ih.attachRtc hrun
  | detachRtc _ ih => exact ih.detachRtc
  | attachVia _ ih => exact ih.attachVia
  | detachVia _ ih => exact ih.detachVia
  | reset _ hrun ih => exact ih.reset hrun
  | read address _ ih => exact ih.read address
  | write _ hrun ih => exact ih.write hrun
  | tick _ hrun ih => exact ih.tick hrun

/-- A board with every chip there is, a timer started on each of three, and time gone by. -/
theorem operated_scheduled_fitted : ∃ error bare fitted first second third b,
    Board.new (.new ⟨none, none, none⟩) .pal {} = .ok bare ∧
    bare.attachRtc {} = .ok (error, fitted) ∧
    fitted.attachVia.write 0xDC0E 0x01 = .ok first ∧ first.write 0xDD0F 0x09 = .ok second ∧
    second.write 0xDF09 0x10 = .ok third ∧ third.tick 100 = .ok b ∧ b.Scheduled := by
  obtain ⟨error, bare, fitted, first, second, third, b, hnew, hrtc, h₁, h₂, h₃, htick⟩ :
      ∃ error bare fitted first second third b,
        Board.new (.new ⟨none, none, none⟩) .pal {} = .ok bare ∧
        bare.attachRtc {} = .ok (error, fitted) ∧
        fitted.attachVia.write 0xDC0E 0x01 = .ok first ∧ first.write 0xDD0F 0x09 = .ok second ∧
        second.write 0xDF09 0x10 = .ok third ∧ third.tick 100 = .ok b :=
    ⟨_, _, _, _, _, _, _, rfl, rfl, rfl, rfl, rfl, rfl⟩
  have operated : b.Operated :=
    .tick (.write (.write (.write (.attachVia (.attachRtc (.new hnew) hrtc)) h₁) h₂) h₃) htick
  exact ⟨error, bare, fitted, first, second, third, b, hnew, hrtc, h₁, h₂, h₃, htick,
    operated_scheduled operated⟩

end C64.Board
