import C64.Board
import C64.Proofs.Cia.Alarms
import C64.Proofs.Rtc.Alarms
import C64.Proofs.Via.Alarms
import C64.Proofs.Vic.Cache

/-!
# The alarms of the board

Ten alarms share the clock, and each of them comes again by itself or not at all. What one of
them does to the devices (`Devices.expire`) and when it comes again (`Devices.again?`) depends on
the devices alone, never on the counter. `fire_eq` says that `Board.fire` is just that, as long
as the devices are sound.
-/

namespace C64.Board

open Clock

/-! ## Every alarm -/

/-- The alarms of the board, one of each. -/
def Event.all : List Event :=
  [.cia1 (.timer .a), .cia1 (.timer .b), .cia1 .tod, .cia2 (.timer .a), .cia2 (.timer .b),
    .cia2 .tod, .via .timer1, .via .timer2, .rtc .tick, .rasterLine]

theorem Event.mem_all (e : Event) : e ∈ all := by
  rcases e with (⟨_ | _⟩ | _) | (⟨_ | _⟩ | _) | (_ | _) | ⟨⟨⟩⟩ | _ <;> decide

/-! ## What is true of the devices -/

/-- What every operation of the board keeps of its devices. -/
structure Devices.Sound (d : Devices) : Prop where
  vic : d.vic.Sound
  cia1 : d.cia1.config.Paced
  cia2 : d.cia2.config.Paced
  rtc : ∀ rtc ∈ d.rtc, 1 ≤ rtc.cyclesPerSecond

/-- The second of a real-time clock, if one is fitted, leaves room for its alarm. -/
def Devices.Paced (d : Devices) : Prop := ∀ rtc ∈ d.rtc, rtc.cyclesPerSecond ≤ Cycle.headroom

/-! ## What an alarm does -/

namespace Devices

/-- The devices behind the end of a raster line. -/
def closeLine (bank : Fin 4) (d : Devices) : Devices :=
  match d.vic.endOfLine (d.memory.view bank) with
  | .ok (ended, vic) => { d with vic, frameComplete := d.frameComplete || ended }
  | .error _ => d

/-- The devices behind an alarm. -/
def expire (bank : Fin 4) (e : Event) (d : Devices) : Devices :=
  match e with
  | .cia1 e => { d with cia1 := d.cia1.expire e }
  | .cia2 e => { d with cia2 := d.cia2.expire e }
  | .via e => { d with via := d.via.map (Via.expire e) }
  | .rtc .tick => { d with rtc := d.rtc.map Rtc.expire }
  | .rasterLine => d.closeLine bank

/-- Cycles until an alarm comes again, if it does. -/
def again? (e : Event) (d : Devices) : Option Nat :=
  match e with
  | .cia1 e => d.cia1.again? e
  | .cia2 e => d.cia2.again? e
  | .via e => d.via.map (Via.period e)
  | .rtc .tick => d.rtc.map Rtc.cyclesPerSecond
  | .rasterLine => some d.vic.standard.cyclesPerLine

theorem Sound.closeLine_eq {d : Devices} (h : d.Sound) (bank : Fin 4) :
    ∃ ended vic, d.vic.endOfLine (d.memory.view bank) = .ok (ended, vic) ∧ vic.Sound ∧
      d.closeLine bank = { d with vic, frameComplete := d.frameComplete || ended } := by
  obtain ⟨ended, vic, hend, hvic⟩ := h.vic.endOfLine (d.memory.view bank)
  refine ⟨ended, vic, hend, hvic, ?_⟩
  unfold closeLine
  rw [hend]

theorem Sound.expire {d : Devices} (h : d.Sound) (bank : Fin 4) (e : Event) :
    (d.expire bank e).Sound := by
  cases e with
  | cia1 e => exact { h with cia1 := (d.cia1.expire_config e).symm ▸ h.cia1 }
  | cia2 e => exact { h with cia2 := (d.cia2.expire_config e).symm ▸ h.cia2 }
  | via e => exact ⟨h.vic, h.cia1, h.cia2, h.rtc⟩
  | rtc e =>
    cases e
    refine { h with rtc := fun rtc hrtc => ?_ }
    obtain ⟨old, hold, rfl⟩ := Option.map_eq_some_iff.mp hrtc
    rw [Rtc.expire_cyclesPerSecond]
    exact h.rtc old hold
  | rasterLine =>
    obtain ⟨ended, vic, -, hvic, heq⟩ := h.closeLine_eq bank
    show (d.closeLine bank).Sound
    rw [heq]
    exact { h with vic := hvic }

/-- An alarm leaves what is fitted as it is, and how long its second lasts. -/
theorem Sound.rtc_expire {d : Devices} (h : d.Sound) (bank : Fin 4) (e : Event) :
    (d.expire bank e).rtc.map Rtc.cyclesPerSecond = d.rtc.map Rtc.cyclesPerSecond := by
  cases e with
  | cia1 e => rfl
  | cia2 e => rfl
  | via e => rfl
  | rtc e => cases e; simp [Devices.expire, Function.comp_def]
  | rasterLine =>
    obtain ⟨ended, vic, -, -, heq⟩ := h.closeLine_eq bank
    show (d.closeLine bank).rtc.map _ = _
    rw [heq]

theorem Sound.paced_expire {d : Devices} (h : d.Sound) (hp : d.Paced) (bank : Fin 4) (e : Event) :
    (d.expire bank e).Paced := by
  intro rtc hrtc
  have kept := h.rtc_expire bank e
  rw [Option.mem_def.mp hrtc] at kept
  obtain ⟨old, hold, heq⟩ := Option.map_eq_some_iff.mp kept.symm
  rw [← heq]
  exact hp old hold

/-- No alarm moves the pins that select the bank. -/
theorem Sound.bank_expire {d : Devices} (h : d.Sound) (bank : Fin 4) (e : Event) :
    (d.expire bank e).bank = d.bank := by
  cases e with
  | cia1 e => rfl
  | cia2 e =>
    simp only [Devices.expire, Devices.bank, Cia.pinsA_expire]
  | via e => rfl
  | rtc e => cases e; rfl
  | rasterLine =>
    obtain ⟨ended, vic, -, -, heq⟩ := h.closeLine_eq bank
    show (d.closeLine bank).bank = d.bank
    rw [heq]
    rfl

/-- An alarm that comes again does so later, and not too late for the clock. -/
theorem Sound.again?_ahead {d : Devices} (h : d.Sound) (hp : d.Paced) {e : Event} {delay : Nat}
    (hd : d.again? e = some delay) : 1 ≤ delay ∧ delay ≤ Cycle.headroom := by
  cases e with
  | cia1 e => exact ⟨Cia.again?_pos hd, Cia.again?_le h.cia1 hd⟩
  | cia2 e => exact ⟨Cia.again?_pos hd, Cia.again?_le h.cia2 hd⟩
  | via e =>
    obtain ⟨via, -, rfl⟩ := Option.map_eq_some_iff.mp hd
    exact ⟨via.one_le_period e, via.period_le e⟩
  | rtc e =>
    cases e
    obtain ⟨rtc, hrtc, rfl⟩ := Option.map_eq_some_iff.mp hd
    exact ⟨h.rtc rtc hrtc, hp rtc hrtc⟩
  | rasterLine =>
    obtain rfl := Option.some.inj hd
    cases d.vic.standard <;> decide

end Devices

/-! ## The handler -/

/-- Handing an alarm to its chip is what `Devices.expire` and `Devices.again?` say. -/
theorem fire_eq (bank : Fin 4) {d : Devices} (h : d.Sound) (alarm : Alarm Event)
    (clock : Clock Event) :
    fire bank alarm clock d = do
      let clock ← clock.setAgain alarm.event alarm.due (d.again? alarm.event)
      return (clock, d.expire bank alarm.event) := by
  obtain ⟨due, e⟩ := alarm
  cases e with
  | cia1 e =>
    simp only [fire, Cia.onAlarm_eq Event.cia1 h.cia1, Devices.again?, Devices.expire]
    cases clock.setAgain (.cia1 e) due (d.cia1.again? e) <;> rfl
  | cia2 e =>
    simp only [fire, Cia.onAlarm_eq Event.cia2 h.cia2, Devices.again?, Devices.expire]
    cases clock.setAgain (.cia2 e) due (d.cia2.again? e) <;> rfl
  | via e =>
    -- An alarm of a chip that was taken off is dropped, and does not come again.
    obtain ⟨memory, vic, cia1, cia2, via, rest⟩ := d
    cases via with
    | none => rfl
    | some via =>
      simp only [fire, Via.onAlarm_eq, Devices.again?, Devices.expire, Option.map_some]
      cases clock.setAgain (.via e) due (some (via.period e)) <;> rfl
  | rtc e =>
    obtain ⟨memory, vic, cia1, cia2, via, rtc, rest⟩ := d
    cases e
    cases rtc with
    | none => rfl
    | some rtc =>
      simp only [fire, Rtc.onAlarm_eq, Devices.again?, Devices.expire, Option.map_some]
      cases clock.setAgain (.rtc .tick) due (some rtc.cyclesPerSecond) <;> rfl
  | rasterLine =>
    obtain ⟨ended, vic, hend, -, heq⟩ := h.closeLine_eq bank
    simp only [fire, endLine, Devices.again?, Devices.expire, setAgain, heq]
    -- The alarm is set before the line is closed, so an overflow comes first.
    cases Cycle.add due d.vic.standard.cyclesPerLine with
    | error e => rfl
    | ok next =>
      rw [ok_bind, hend]
      rfl

theorem fire_lawful (bank : Fin 4) : Handler.Lawful (fire bank) Devices.Sound := by
  intro alarm c d c' d' hc hd h
  rw [fire_eq bank hd] at h
  obtain ⟨c₁, hset, hret⟩ := bind_eq_ok.mp h
  cases hret
  exact ⟨hc.setAgain hset, hd.expire bank alarm.event⟩

/-- The alarms of the board as a responder. -/
def responder (bank : Fin 4) : Responder Event Devices :=
  recurring Devices.again? (Devices.expire bank)

/-- The devices that a responder can be asked about. -/
structure Devices.Ready (bank : Fin 4) (d : Devices) : Prop where
  sound : d.Sound
  paced : d.Paced
  bank_eq : d.bank = bank

theorem responder_steady (bank : Fin 4) : (responder bank).Steady (Devices.Ready bank) :=
  recurring_steady (fun _ _ hd _ hdelay => hd.sound.again?_ahead hd.paced hdelay)
    fun e _ hd => ⟨hd.sound.expire bank e, hd.sound.paced_expire hd.paced bank e,
      (hd.sound.bank_expire bank e).trans hd.bank_eq⟩

theorem responder_describes (bank : Fin 4) :
    (responder bank).Describes (Devices.Ready bank) (fire bank) := by
  intro alarm c d hd
  rw [fire_eq bank hd.sound, responder, recurring_handler]

end C64.Board
