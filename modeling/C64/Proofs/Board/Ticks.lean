import C64.Proofs.Board.Reachable

/-!
# Time in parts

Time does not depend on how it is cut into ticks. Behind a tick the devices and what waits on the
clock are what `Clock.Fires` says of the time that passed (`Sound.tick_leads`), and that is the
same whether it passed at once or in two parts, with a rebase of the counter in either, in both
or in none.
-/

namespace C64.Board

open Clock

/-- A tick fires what falls due until its end, and lets as much time pass as it was asked to. -/
theorem Sound.tick_leads {b : Board} {bank : Fin 4} (h : b.Sound) (hready : b.devices.Ready bank)
    {cycles : Nat} (hcycles : cycles ≤ Cycle.clockMax) :
    ∃ n b', b.tick cycles = .ok b' ∧ b'.clock.elapsed = b.clock.elapsed + cycles ∧
      (responder bank).Leads (Devices.Ready bank) n b.clock b.devices b'.clock b'.devices := by
  obtain ⟨n, clock', d', helapsed, hleads, hrun⟩ :=
    Responder.advance (responder_steady bank) (recurring_single _ _) Event.mem_all (by decide)
      (responder_describes bank) h.clock.wellFormed hready hcycles
  refine ⟨n, ⟨d', clock'⟩, ?_, helapsed, hleads⟩
  unfold Board.tick
  simp only [hready.bank_eq]
  rw [hrun]
  rfl

/-- Time in two parts is time at once: the same devices, the same age, and the same alarms,
equally far ahead and in the same order. -/
theorem tick_tick {b : Board} (hb : b.Reachable)
    (hrtc : ∀ rtc ∈ b.devices.rtc, rtc.cyclesPerSecond ≤ Cycle.headroom) {first second : Nat}
    (h : first + second ≤ Cycle.clockMax) :
    ∃ mid parts whole, b.tick first = .ok mid ∧ mid.tick second = .ok parts ∧
      b.tick (first + second) = .ok whole ∧ parts.devices = whole.devices ∧
      parts.clock.elapsed = b.clock.elapsed + (first + second) ∧
      whole.clock.elapsed = b.clock.elapsed + (first + second) ∧
      parts.clock.distances = whole.clock.distances := by
  have sound := hb.sound
  have ready : b.devices.Ready b.devices.bank := ⟨sound.devices, hrtc, rfl⟩
  obtain ⟨m, mid, hmid, emid, lmid⟩ := sound.tick_leads ready (by omega : first ≤ Cycle.clockMax)
  obtain ⟨n, parts, hparts, eparts, lparts⟩ :=
    (sound.tick hmid).tick_leads lmid.good (by omega : second ≤ Cycle.clockMax)
  obtain ⟨k, whole, hwhole, ewhole, lwhole⟩ := sound.tick_leads ready h
  -- Both ways fire the agenda up to the same cycle, and a firing has one outcome.
  have age : parts.clock.elapsed = whole.clock.elapsed := by omega
  have fires := (lmid.trans lparts (by omega)).fires
  rw [age] at fires
  obtain ⟨-, agenda, devices⟩ := fires.unique lwhole.fires
  exact ⟨mid, parts, whole, hmid, hparts, hwhole, devices, by omega, ewhole,
    distances_eq_of_agenda age agenda⟩

/-- A board with every chip there is, and two seconds in two unequal parts. -/
theorem tick_tick_of_built : ∃ b,
    Machine.buildBoard (.new ⟨none, none, none⟩) { rtc := some {}, via := true } = .ok (b, []) ∧
      (∀ rtc ∈ b.devices.rtc, rtc.cyclesPerSecond ≤ Cycle.headroom) ∧
      7 + 1970489 ≤ Cycle.clockMax ∧
      ∃ mid parts whole, b.tick 7 = .ok mid ∧ mid.tick 1970489 = .ok parts ∧
        b.tick (7 + 1970489) = .ok whole ∧ parts.devices = whole.devices ∧
        parts.clock.elapsed = b.clock.elapsed + (7 + 1970489) ∧
        whole.clock.elapsed = b.clock.elapsed + (7 + 1970489) ∧
        parts.clock.distances = whole.clock.distances := by
  obtain ⟨b, hbuild, hrate⟩ : ∃ b,
      Machine.buildBoard (.new ⟨none, none, none⟩) { rtc := some {}, via := true } = .ok (b, []) ∧
        ∀ rtc ∈ b.devices.rtc, rtc.cyclesPerSecond ≤ Cycle.headroom := by
    refine ⟨_, rfl, ?_⟩
    rintro _ ⟨⟩
    decide
  exact ⟨b, hbuild, hrate, by decide, tick_tick (buildBoard_reachable hbuild) hrate (by decide)⟩

end C64.Board
