import C64.Proofs.Clock.Responding
import C64.Rtc

/-!
# The alarm of the real-time clock

The alarm comes back once a second, and what it does to the chip does not depend on the clock
(`Rtc.expire`). How many cycles a second has is settled when the chip is built: no pulse and no
alarm changes it.
-/

namespace C64.Rtc

open Clock

/-- The chip one second later. -/
def expire (r : Rtc) : Rtc :=
  if r.registers.halted then r else { r with registers := r.registers.tick }

/-- The registers when a second has passed. -/
def second (r : Registers) : Registers := if r.halted then r else r.tick

theorem expire_eq (r : Rtc) : r.expire = { r with registers := second r.registers } := by
  unfold expire second
  split <;> rfl

@[simp] theorem expire_cyclesPerSecond (r : Rtc) :
    r.expire.cyclesPerSecond = r.cyclesPerSecond := by
  unfold expire
  split <;> rfl

section

variable {ε : Type} [DecidableEq ε] (event : Event → ε)

/-- Handling the alarm is what `expire` says, and the alarm is set again a second later. -/
theorem onAlarm_eq (r : Rtc) (clock : Clock ε) (due : Nat) :
    r.onAlarm event clock due = do
      let clock ← clock.setAgain (event .tick) due (some r.cyclesPerSecond)
      return (r.expire, clock) := by
  show (do return (r.expire,
    clock.setAlarm (← Cycle.add due r.expire.cyclesPerSecond) (event .tick))) = _
  rw [expire_cyclesPerSecond]
  simp only [setAgain]
  cases Cycle.add due r.cyclesPerSecond <;> rfl

theorem Config.one_le_rate {config : Config} (h : config.error? = none) :
    1 ≤ config.cyclesPerSecond := by
  unfold Config.error? at h
  split at h
  · exact absurd h (by simp)
  · next hne => exact Nat.pos_of_ne_zero hne

/-- A chip that was built has at least one cycle in a second. -/
theorem new_ok [ToString ε] {config : Config} {clock clock' : Clock ε} {r : Rtc}
    (hc : clock.Reachable) (h : new event config clock = .ok (.ok (r, clock'))) :
    clock'.Reachable ∧ 1 ≤ r.cyclesPerSecond := by
  unfold new at h
  split at h
  · exact absurd h (by simp)
  · next hnone =>
    obtain ⟨⟨due, c⟩, hset, hret⟩ := bind_eq_ok.mp h
    cases hret
    exact ⟨hc.setAlarmIn hset, Config.one_le_rate hnone⟩

end

/-! ## The rate through pulses -/

theorem store_cyclesPerSecond (r : Rtc) (target : Target) (b : UInt8) :
    (r.store target b).cyclesPerSecond = r.cyclesPerSecond := by
  unfold store
  simp only []
  split
  · rfl
  · split
    · split <;> rfl
    · split
      · rfl
      · split <;> rfl

theorem present_cyclesPerSecond (r : Rtc) (target : Target) (bit : Nat) :
    (r.present target bit).cyclesPerSecond = r.cyclesPerSecond := rfl

theorem obey_cyclesPerSecond (r : Rtc) (command : Command) :
    (r.obey command).cyclesPerSecond = r.cyclesPerSecond := by
  cases command with
  | none => rfl
  | write target => rfl
  | read target =>
    simp only [obey, present_cyclesPerSecond]
    split <;> rfl

theorem pulse_cyclesPerSecond (r : Rtc) (bit : Bool) :
    (r.pulse bit).cyclesPerSecond = r.cyclesPerSecond := by
  unfold pulse
  split
  · rfl
  · rfl
  · simp only []
    split
    · exact obey_cyclesPerSecond r _
    · rfl
  · simp only []
    split
    · rfl
    · split <;> exact store_cyclesPerSecond r _ _
  · split
    · rfl
    · split <;> rfl

theorem setLines_cyclesPerSecond (r : Rtc) (enable serialClock data : Bool) :
    (r.setLines enable serialClock data).cyclesPerSecond = r.cyclesPerSecond := by
  unfold setLines
  simp only []
  split
  · rfl
  · split
    · exact pulse_cyclesPerSecond _ data
    · rfl

end C64.Rtc
