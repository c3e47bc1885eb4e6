import C64.Proofs.Board.Making
import C64.Proofs.Board.Ticks
import C64.Proofs.Cia.Simultaneous
import C64.Proofs.Clock.Simultaneous

/-!
# Alarms of the board for the same cycle

The devices share no state that an alarm writes, but for the two alarms of an adapter and what the
end of a raster line reads. So any two alarms that wait can change places (`devices_commute`), on a
board at any moment, between two operations or in the middle of a tick (`Underway`). That leaves no
part to the order in which alarms for the same cycle were set (`simultaneous_alarms_commute`).
-/

namespace C64.Board

open Clock Function

variable {bank : Fin 4} {d : Devices} {e e' : Event}

/-! ## What an alarm leaves alone -/

namespace Devices

/-- Only the end of a raster line changes what the end of a raster line reads. -/
theorem expire_picture (d : Devices) (bank : Fin 4) (ne : e ≠ .rasterLine) :
    (d.expire bank e).vic = d.vic ∧ (d.expire bank e).memory = d.memory := by
  cases e with
  | rasterLine => exact absurd rfl ne
  | rtc e => cases e; exact ⟨rfl, rfl⟩
  | _ => exact ⟨rfl, rfl⟩

theorem closeLine_expire (ne : e ≠ .rasterLine) :
    (d.expire bank e).closeLine bank = (d.closeLine bank).expire bank e := by
  cases e with
  | rasterLine => exact absurd rfl ne
  | rtc e => cases e; unfold closeLine; simp only [expire]; split <;> rfl
  | _ => unfold closeLine; simp only [expire]; split <;> rfl

/-- The end of a raster line leaves every other alarm to come again when it would have. -/
theorem again?_closeLine (ne : e ≠ .rasterLine) : (d.closeLine bank).again? e = d.again? e := by
  unfold closeLine
  split
  · cases e with
    | rasterLine => exact absurd rfl ne
    | rtc e => cases e; rfl
    | _ => rfl
  · rfl

section Scheduled

variable {pending : Event → Bool} (h : d.Scheduled pending) (he : pending e = true)
  (he' : pending e' = true) (ne : e ≠ e')
include h he he' ne

/-- Two alarms that wait leave the same devices in either order. -/
theorem Scheduled.expire_comm :
    (d.expire bank e).expire bank e' = (d.expire bank e').expire bank e := by
  -- Two chips share nothing but what the end of a line reads; one chip speaks for itself.
  cases e with
  | rasterLine => exact (closeLine_expire ne.symm).symm
  | cia1 e =>
    cases e' with
    | rasterLine => exact closeLine_expire ne
    | cia1 e' =>
      have chip := h.cia1.expire_comm he he' fun same => ne (congrArg _ same)
      exact congrArg (fun cia1 => { d with cia1 }) chip
    | rtc e' => cases e'; rfl
    | _ => rfl
  | cia2 e =>
    cases e' with
    | rasterLine => exact closeLine_expire ne
    | cia2 e' =>
      have chip := h.cia2.expire_comm he he' fun same => ne (congrArg _ same)
      exact congrArg (fun cia2 => { d with cia2 }) chip
    | rtc e' => cases e'; rfl
    | _ => rfl
  | via e =>
    cases e' with
    | rasterLine => exact closeLine_expire ne
    | via e' =>
      have chip : (d.via.map (Via.expire e)).map (Via.expire e') =
          (d.via.map (Via.expire e')).map (Via.expire e) := by
        cases d.via with
        | none => rfl
        | some via => exact congrArg some (via.expire_comm e e')
      exact congrArg (fun via => { d with via }) chip
    | rtc e' => cases e'; rfl
    | _ => rfl
  | rtc e =>
    cases e
    cases e' with
    | rasterLine => exact closeLine_expire ne
    | rtc e' => cases e'; exact absurd rfl ne
    | _ => rfl

/-- Each comes again when it would have without the other. -/
theorem Scheduled.again?_expire : (d.expire bank e).again? e' = d.again? e' := by
  cases e with
  | rasterLine => exact again?_closeLine ne.symm
  | cia1 e =>
    cases e' with
    | cia1 e' => exact h.cia1.again?_expire he he' fun same => ne (congrArg _ same)
    | rtc e' => cases e'; rfl
    | _ => rfl
  | cia2 e =>
    cases e' with
    | cia2 e' => exact h.cia2.again?_expire he he' fun same => ne (congrArg _ same)
    | rtc e' => cases e'; rfl
    | _ => rfl
  | via e =>
    cases e' with
    | via e' =>
      show (d.via.map (Via.expire e)).map (Via.period e') = d.via.map (Via.period e')
      rw [Option.map_map]
      exact congrArg (d.via.map ·) (funext fun via => via.period_expire e e')
    | rtc e' => cases e'; rfl
    | _ => rfl
  | rtc e =>
    cases e
    cases e' with
    | rtc e' => cases e'; exact absurd rfl ne
    | _ => rfl

end Scheduled

/-- The alarms of the board: only the end of a raster line might not be admitted. -/
def recurrence (bank : Fin 4) : Recurrence Event Devices where
  admits e d := e = .rasterLine → ∃ out, d.vic.endOfLine (d.memory.view bank) = .ok out
  again := again?
  expire := expire bank

end Devices

/-- Any two alarms that wait can change places. -/
theorem devices_commute (bank : Fin 4) :
    (Devices.recurrence bank).Commutes fun pending d => d.Scheduled pending where
  keeps h he := h.expire bank he
  again h he he' ne := h.again?_expire he he' ne
  expire h he he' ne := h.expire_comm he he' ne
  admits {_ d e e'} _ _ _ ne := by
    show (e' = .rasterLine → _) ↔ (e' = .rasterLine → _)
    refine forall_congr' fun last => ?_
    subst last
    obtain ⟨vic, memory⟩ := d.expire_picture bank ne
    rw [show (Devices.recurrence bank).expire = Devices.expire bank from rfl, vic, memory]

section Fire

variable {due : Nat} {clock clock' : Clock Event} {d' : Devices}

theorem endOfLine_of_fire (h : fire bank ⟨due, .rasterLine⟩ clock d = .ok (clock', d')) :
    ∃ out, d.vic.endOfLine (d.memory.view bank) = .ok out := by
  obtain ⟨next, -, rest⟩ := bind_eq_ok.mp h
  obtain ⟨out, hend, -⟩ := bind_eq_ok.mp rest
  exact ⟨out, hend⟩

theorem fire_rasterLine_of_setAgain
    (admits : ∃ out, d.vic.endOfLine (d.memory.view bank) = .ok out)
    (h : clock.setAgain .rasterLine due (d.again? .rasterLine) = .ok clock') :
    fire bank ⟨due, .rasterLine⟩ clock d = .ok (clock', d.closeLine bank) := by
  obtain ⟨⟨ended, vic⟩, hend⟩ := admits
  obtain ⟨next, hadd, hret⟩ := bind_eq_ok.mp h
  cases hret
  show (Cycle.add due d.vic.standard.cyclesPerLine >>= _) = _
  rw [show Cycle.add due d.vic.standard.cyclesPerLine = .ok next from hadd, ok_bind]
  show (d.vic.endOfLine (d.memory.view bank) >>= _) = _
  unfold Devices.closeLine
  rw [hend]
  rfl

/-- Any other alarm comes out well wherever it can be set again. -/
theorem fire_of_setAgain (ne : e ≠ .rasterLine)
    (h : clock.setAgain e due (d.again? e) = .ok clock') :
    fire bank ⟨due, e⟩ clock d = .ok (clock', d.expire bank e) := by
  obtain ⟨memory, vic, cia1, cia2, via, rtc, rest⟩ := d
  cases e with
  | rasterLine => exact absurd rfl ne
  | cia1 e =>
    have chip := Cia.onAlarm_of_setAgain Event.cia1 h
    show (cia1.onAlarm Event.cia1 clock e due >>= _) = _
    rw [chip]
    rfl
  | cia2 e =>
    have chip := Cia.onAlarm_of_setAgain Event.cia2 h
    show (cia2.onAlarm Event.cia2 clock e due >>= _) = _
    rw [chip]
    rfl
  | via e =>
    cases via with
    | none => cases h; rfl
    | some via =>
      show (via.onAlarm Event.via clock e due >>= _) = _
      rw [Via.onAlarm_eq, show clock.setAgain (.via e) due (some (via.period e)) = _ from h]
      rfl
  | rtc e =>
    cases e
    cases rtc with
    | none => cases h; rfl
    | some rtc =>
      show (rtc.onAlarm Event.rtc clock due >>= _) = _
      rw [Rtc.onAlarm_eq,
        show clock.setAgain (.rtc .tick) due (some rtc.cyclesPerSecond) = _ from h]
      rfl

end Fire

/-- Whatever the devices, a handler comes out well just where its alarm is admitted and can be set
again. -/
theorem recurrence_describes (bank : Fin 4) :
    (Devices.recurrence bank).Describes (fire bank) := by
  rintro ⟨due, e⟩ clock d clock' d'
  constructor
  · intro run
    obtain ⟨hset, rfl⟩ := fire_ok run
    refine ⟨fun last => ?_, hset, rfl⟩
    obtain rfl : e = .rasterLine := last
    exact endOfLine_of_fire run
  · rintro ⟨admits, hset, rfl⟩
    by_cases last : e = .rasterLine
    · subst last
      exact fire_rasterLine_of_setAgain (admits rfl) hset
    · exact fire_of_setAgain last hset

/-! ## Boards at any moment -/

/-- Takes the alarm of an event off the clock, and hands it to its chip. -/
def dispatch (bank : Fin 4) (e : Event) (b : Board) : Except Fault Board := do
  let (clock, devices) ← b.clock.serve (fire bank) e b.devices
  return ⟨devices, clock⟩

/-- Two boards have the same devices, and clocks that show the same and have the same alarms. -/
structure Agrees (b b' : Board) : Prop where
  devices : b.devices = b'.devices
  clock : b.clock.Agrees b'.clock

/-- A board between two operations, of whatever configuration. -/
inductive Between : Board → Prop
  | new {memory : Memory} {standard : VideoStandard} {cia : Cia.Config} {b : Board} :
      Board.new memory standard cia = .ok b → Between b
  | worked {b b' : Board} : Between b → Worked b b' → Between b'

/-- A board between two operations or in the middle of a tick, which lets the counter run, moves it
back and hands out alarms. -/
inductive Underway : Board → Prop
  | between {b : Board} : Between b → Underway b
  | pass {b : Board} {cycles : Nat} : Underway b → b.clock.now + cycles ≤ Cycle.clockMax →
      Underway { b with clock := { b.clock with now := b.clock.now + cycles } }
  | rebase {b : Board} : Underway b → Underway { b with clock := b.clock.rebase }
  | dispatch {b b' : Board} (bank : Fin 4) (e : Event) : Underway b → b.dispatch bank e = .ok b' →
      Underway b'

/-- Every alarm that waits has its owner, and every owner has its alarm. -/
structure Owned (b : Board) : Prop where
  clock : b.clock.Reachable
  owners : b.devices.Scheduled b.clock.isPending

variable {b b' : Board}

theorem Between.scheduled (h : Between b) : b.Scheduled := by
  induction h with
  | new hnew => exact .new hnew
  | worked _ work ih =>
    cases work with
    | attachRtc hrun => exact ih.attachRtc hrun
    | detachRtc => exact ih.detachRtc
    | attachVia => exact ih.attachVia
    | detachVia => exact ih.detachVia
    | reset hrun => exact ih.reset hrun
    | read address => exact ih.read address
    | write hrun => exact ih.write hrun
    | tick hrun => exact ih.tick hrun
    | handled hd => exact ih.handled hd

theorem dispatch_ok (h : b.dispatch bank e = .ok b') :
    b.clock.serve (fire bank) e b.devices = .ok (b'.clock, b'.devices) := by
  obtain ⟨⟨clock, devices⟩, hserve, hret⟩ := bind_eq_ok.mp h
  cases hret
  exact hserve

theorem Underway.owned (h : Underway b) : b.Owned := by
  induction h with
  | between h => exact ⟨h.scheduled.clock, h.scheduled.owners⟩
  | pass _ room ih => exact ⟨ih.clock.pass room, ih.owners⟩
  | rebase _ ih => exact ⟨ih.clock.rebase, by rw [isPending_rebase]; exact ih.owners⟩
  | dispatch bank e _ hrun ih =>
    obtain ⟨clock, owners⟩ := (recurrence_describes bank).serve_keeps (devices_commute bank)
      ih.clock ih.owners (dispatch_ok hrun)
    exact ⟨clock, owners⟩

/-! ## Two alarms -/

theorem dispatch_dispatch (b : Board) (bank : Fin 4) (e e' : Event) :
    (b.dispatch bank e >>= (·.dispatch bank e')) = do
      let (clock, devices) ← (b.clock.serve (fire bank) e b.devices >>= fun x =>
        x.1.serve (fire bank) e' x.2)
      return ⟨devices, clock⟩ := by
  unfold dispatch
  cases b.clock.serve (fire bank) e b.devices <;> rfl

/-- A handler of sound devices comes out well, and the devices behind it are sound. -/
theorem Devices.Sound.passes (h : d.Sound) (paced : d.Paced) (bank : Fin 4) (e : Event) {due : Nat}
    (room : due ≤ Cycle.clockMax) : (Devices.recurrence bank).Passes d e due where
  admits _ := by
    obtain ⟨ended, vic, hend, -⟩ := h.closeLine_eq bank
    exact ⟨_, hend⟩
  room delay again := by
    have short := (h.again?_ahead paced again).2
    exact Nat.le_trans (Nat.add_le_add room short) (by decide)

theorem exists_dispatch (bank : Fin 4) (sound : b.devices.Sound) (paced : b.devices.Paced)
    {due : Nat} (waits : b.clock.due? e = some due) (room : due ≤ Cycle.clockMax) :
    ∃ clock, b.dispatch bank e = .ok ⟨b.devices.expire bank e, clock⟩ ∧
      ∀ other, other ≠ e → clock.due? other = b.clock.due? other := by
  have describes := recurrence_describes bank
  obtain ⟨clock, hserve⟩ := describes.exists_serve waits (sound.passes paced bank e room)
  obtain ⟨-, -, dues, -⟩ := describes.serve_ok waits hserve
  refine ⟨clock, bind_eq_ok.mpr ⟨_, hserve, rfl⟩, fun other ne => ?_⟩
  rw [dues, (Devices.recurrence bank).behind_ne _ _ _ ne]

/-- Two alarms come to the same in either order, or to a fault in both. There is none where the
devices are sound and their alarms in reach of the clock. -/
theorem Owned.dispatch_comm (h : b.Owned) {due : Nat} (waits : b.clock.due? e = some due)
    (waits' : b.clock.due? e' = some due) (ne : e ≠ e') :
    Together (¬(b.devices.Sound ∧ b.devices.Paced ∧ due ≤ Cycle.clockMax)) Agrees
      (b.dispatch bank e >>= (·.dispatch bank e'))
      (b.dispatch bank e' >>= (·.dispatch bank e)) := by
  refine Together.unless ?_ ?_
  · rw [dispatch_dispatch, dispatch_dispatch]
    have swap :=
      (recurrence_describes bank).serve_comm (devices_commute bank) h.owners waits waits' ne
    exact swap.andThen fun x y same => ⟨same.2, same.1⟩
  · rintro ⟨sound, paced, room⟩
    obtain ⟨clock, hfirst, kept⟩ := exists_dispatch bank sound paced waits room
    obtain ⟨clock', hsecond, -⟩ :=
      exists_dispatch (b := ⟨b.devices.expire bank e, clock⟩) bank (sound.expire bank e)
        (sound.paced_expire paced bank e) ((kept e' ne.symm).trans waits') room
    exact ⟨_, bind_eq_ok.mpr ⟨_, hfirst, hsecond⟩⟩

/-! ## Ticks -/

/-- A tick comes to the same on boards in agreement, or to a fault on both. There is none where
the devices are sound and the clock has room. -/
theorem Owned.tick_agree (h : b.Owned) (h' : b'.Owned) (agrees : b.Agrees b') (cycles : Nat) :
    Together (¬(b.devices.Sound ∧ b.devices.Paced ∧ cycles ≤ Cycle.clockMax)) Agrees
      (b.tick cycles) (b'.tick cycles) := by
  obtain ⟨d, clock⟩ := b
  obtain ⟨d', clock'⟩ := b'
  obtain ⟨rfl, same⟩ := agrees
  refine Together.unless ?_ ?_
  · have along : Recurrence.Along (fun pending (d : Devices) => d.Scheduled pending) (clock, d)
        (clock', d) := ⟨same, rfl, h.clock, h'.clock, h.owners⟩
    have advance : Together True _ (clock.advance (fire d.bank) cycles d)
        (clock'.advance (fire d.bank) cycles d) :=
      (recurrence_describes d.bank).advanceWithin_agree (devices_commute d.bank) along
    exact advance.andThen fun x y out => ⟨out.same, out.agrees⟩
  · rintro ⟨sound, paced, room⟩
    obtain ⟨-, b', hrun, -⟩ :=
      Sound.tick_leads (b := ⟨d, clock⟩) ⟨h.clock, sound⟩ ⟨sound, paced, rfl⟩ room
    exact ⟨b', hrun⟩

/-- Of two alarms for the same cycle either can be handled first, with the same board behind them.
So a tick comes to the same whatever order the alarms were set in. -/
theorem simultaneous_alarms_commute (h : b.Underway) :
    (∀ (bank : Fin 4) (e₁ e₂ : Event) (due : Nat), e₁ ≠ e₂ → b.clock.due? e₁ = some due →
      b.clock.due? e₂ = some due →
        Together (¬(b.devices.Sound ∧ b.devices.Paced ∧ due ≤ Cycle.clockMax)) Agrees
          (b.dispatch bank e₁ >>= (·.dispatch bank e₂))
          (b.dispatch bank e₂ >>= (·.dispatch bank e₁))) ∧
      ∀ b' : Board, b'.Underway → b.Agrees b' → ∀ cycles,
        Together (¬(b.devices.Sound ∧ b.devices.Paced ∧ cycles ≤ Cycle.clockMax)) Agrees
          (b.tick cycles) (b'.tick cycles) :=
  ⟨fun _ _ _ _ ne waits waits' => h.owned.dispatch_comm waits waits' ne,
    fun _ h' agrees cycles => h.owned.tick_agree h'.owned agrees cycles⟩

/-- A board on which the timers of an adapter, started in one cycle, time out in one cycle, and the
same board with the timers started the other way round. -/
theorem simultaneous_alarms_commute_timers : ∃ bare first b first' b',
    Board.new (.new ⟨none, none, none⟩) .pal {} = .ok bare ∧
    bare.write 0xDC0E 0x01 = .ok first ∧ first.write 0xDC0F 0x01 = .ok b ∧
    bare.write 0xDC0F 0x01 = .ok first' ∧ first'.write 0xDC0E 0x01 = .ok b' ∧
    b.clock.due? (.cia1 (.timer .a)) = some 65536 ∧
    b.clock.due? (.cia1 (.timer .b)) = some 65536 ∧ b.Agrees b' ∧
    b.clock.queue.map Entry.event ≠ b'.clock.queue.map Entry.event ∧
    b.devices.Sound ∧ b.devices.Paced ∧
    Together (¬(b.devices.Sound ∧ b.devices.Paced ∧ 65536 ≤ Cycle.clockMax)) Agrees
      (b.dispatch 3 (.cia1 (.timer .a)) >>= (·.dispatch 3 (.cia1 (.timer .b))))
      (b.dispatch 3 (.cia1 (.timer .b)) >>= (·.dispatch 3 (.cia1 (.timer .a)))) ∧
    Together (¬(b.devices.Sound ∧ b.devices.Paced ∧ 70000 ≤ Cycle.clockMax)) Agrees
      (b.tick 70000) (b'.tick 70000) := by
  obtain ⟨bare, first, b, first', b', hnew, h₁, h₂, h₁', h₂', waits, waits', agrees, order, paced⟩ :
      ∃ bare first b first' b',
        Board.new (.new ⟨none, none, none⟩) .pal {} = .ok bare ∧
        bare.write 0xDC0E 0x01 = .ok first ∧ first.write 0xDC0F 0x01 = .ok b ∧
        bare.write 0xDC0F 0x01 = .ok first' ∧ first'.write 0xDC0E 0x01 = .ok b' ∧
        b.clock.due? (.cia1 (.timer .a)) = some 65536 ∧
        b.clock.due? (.cia1 (.timer .b)) = some 65536 ∧ b.Agrees b' ∧
        b.clock.queue.map Entry.event ≠ b'.clock.queue.map Entry.event ∧ b.devices.Paced := by
    refine ⟨_, _, _, _, _, rfl, rfl, rfl, rfl, rfl, rfl, rfl, ⟨rfl, rfl, rfl, rfl, ?_⟩, ?_, ?_⟩
    · funext e
      rcases e with (⟨_ | _⟩ | _) | (⟨_ | _⟩ | _) | (_ | _) | ⟨⟨⟩⟩ | _ <;> rfl
    · decide
    · rintro _ ⟨⟩
  have made : Between bare := .new hnew
  have left : b.Underway := .between (.worked (.worked made (.write h₁)) (.write h₂))
  have right : b'.Underway := .between (.worked (.worked made (.write h₁')) (.write h₂'))
  have sound : b.devices.Sound := (((Sound.new (by decide) hnew).write h₁).write h₂).devices
  obtain ⟨alarms, ticks⟩ := simultaneous_alarms_commute left
  exact ⟨bare, first, b, first', b', hnew, h₁, h₂, h₁', h₂', waits, waits', agrees, order, sound,
    paced, alarms 3 _ _ 65536 (by decide) waits waits', ticks b' right agrees 70000⟩

end C64.Board
