import C64.Proofs.Board.Making
import C64.Proofs.Clock.Dispatching

/-!
# Every tick ends

The ten alarms of the board set themselves again from within the loop that hands them out, for
cycles that may have passed already. Each does so at least a cycle behind itself, whatever latches,
modes and rates are in force, and between two operations none is due. A tick therefore dispatches
ten alarms for a cycle at most, those before a rebase of the counter included, and leaves none that
is due (`tick_ends`).
-/

namespace C64.Board

open Clock

/-- Between two operations of a run, what waits on the clock is what the devices ask for, and no
alarm is due. -/
theorem Reachable.scheduled {b : Board} (h : b.Reachable) : b.Scheduled := by
  induction h with
  | new _ hnew => exact .new hnew
  | attachRtc _ hrun ih => exact ih.attachRtc hrun
  | detachRtc _ ih => exact ih.detachRtc
  | attachVia _ ih => exact ih.attachVia
  | detachVia _ ih => exact ih.detachVia
  | reset _ hrun ih => exact ih.reset hrun
  | read address _ ih => exact ih.read address
  | write _ hrun ih => exact ih.write hrun
  | tick _ hrun ih => exact ih.tick hrun
  | handled _ hd ih => exact ih.handled hd

/-- A tick of a board of a run comes to its end behind at most ten alarms for every cycle, with no
alarm due. The number of alarms that may fire at a time makes no difference above that. -/
theorem tick_ends {b : Board} (hb : b.Reachable)
    (hrtc : ∀ rtc ∈ b.devices.rtc, rtc.cyclesPerSecond ≤ Cycle.headroom) {n : Nat}
    (hn : n ≤ Cycle.clockMax) :
    ∃ fired b', b.tick n = .ok b' ∧ fired ≤ 10 * n ∧
      (∀ budget, fired ≤ budget →
        b.clock.advanceWithin budget (fire b.devices.bank).counting n (b.devices, 0) =
          .ok (b'.clock, b'.devices, fired)) ∧
      (∀ alarm ∈ b'.clock.queue, b'.clock.now < alarm.due) ∧
      b'.clock.elapsed = b.clock.elapsed + n := by
  have sound := hb.sound
  have ready : b.devices.Ready b.devices.bank := ⟨sound.devices, hrtc, rfl⟩
  obtain ⟨fired, clock', d', few, counts, run, ahead, age⟩ :=
    Responder.dispatches (responder_steady b.devices.bank) (recurring_single _ _) Event.mem_all
      (by decide) (responder_describes b.devices.bank) sound.clock.wellFormed hb.scheduled.ahead
      ready hn
  refine ⟨fired, ⟨d', clock'⟩, ?_, few, counts, ahead, age⟩
  unfold Board.tick
  simp only []
  rw [run]
  rfl

/-- A board with every chip there is, a timer that runs down every cycle, and two seconds. -/
theorem tick_ends_busy : ∃ b b₁ b₂ busy,
    Machine.buildBoard (.new ⟨none, none, none⟩) { rtc := some {}, via := true } = .ok (b, []) ∧
    b.write 0xDC04 0x00 = .ok b₁ ∧ b₁.write 0xDC05 0x00 = .ok b₂ ∧ b₂.write 0xDC0E 0x11 = .ok busy ∧
    (∀ rtc ∈ busy.devices.rtc, rtc.cyclesPerSecond ≤ Cycle.headroom) ∧
    ∃ fired b', busy.tick 1970496 = .ok b' ∧ fired ≤ 10 * 1970496 ∧
      (∀ budget, fired ≤ budget →
        busy.clock.advanceWithin budget (fire busy.devices.bank).counting 1970496
          (busy.devices, 0) = .ok (b'.clock, b'.devices, fired)) ∧
      (∀ alarm ∈ b'.clock.queue, b'.clock.now < alarm.due) ∧
      b'.clock.elapsed = busy.clock.elapsed + 1970496 := by
  obtain ⟨b, b₁, b₂, busy, hbuild, h₁, h₂, h₃, hrate⟩ : ∃ b b₁ b₂ busy,
      Machine.buildBoard (.new ⟨none, none, none⟩) { rtc := some {}, via := true } = .ok (b, []) ∧
      b.write 0xDC04 0x00 = .ok b₁ ∧ b₁.write 0xDC05 0x00 = .ok b₂ ∧
      b₂.write 0xDC0E 0x11 = .ok busy ∧
      ∀ rtc ∈ busy.devices.rtc, rtc.cyclesPerSecond ≤ Cycle.headroom := by
    refine ⟨_, _, _, _, rfl, rfl, rfl, rfl, ?_⟩
    rintro _ ⟨⟩
    decide
  have reached : busy.Reachable := .write (.write (.write (buildBoard_reachable hbuild) h₁) h₂) h₃
  exact ⟨b, b₁, b₂, busy, hbuild, h₁, h₂, h₃, hrate, tick_ends reached hrate (by decide)⟩

end C64.Board
