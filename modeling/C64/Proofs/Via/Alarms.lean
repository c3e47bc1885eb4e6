import C64.Proofs.Clock.Responding
import C64.Via

/-!
# The alarms of the versatile adapter

Once its timers run, both alarms of the chip come back for ever (`Via.period`), and what they do
to the chip does not depend on the clock (`Via.expire`). The timers go wrong in no register: a
write that succeeds leads from a reachable clock to a reachable one.
-/

namespace C64.Via

open Clock

/-- The chip behind one of its alarms. -/
def expire (e : Event) (v : Via) : Via :=
  match e with
  | .timer1 => v.timeOut1
  | .timer2 => v.timeOut2

/-- Cycles from one alarm to the next of the same timer. -/
def period (e : Event) (v : Via) : Nat :=
  match e with
  | .timer1 => v.latch1.toNat + 2
  | .timer2 => 0x10000

theorem one_le_period (e : Event) (v : Via) : 1 ≤ v.period e := by
  cases e <;> simp [period]

theorem period_le (e : Event) (v : Via) : v.period e ≤ Cycle.headroom := by
  have := v.latch1.toNat_lt
  unfold Cycle.headroom Cycle.last Cycle.clockMax
  cases e with
  | timer1 => simp only [period]; omega
  | timer2 => simp only [period]; omega

/-- Timer 1 is armed again just where it runs on, and puts out and interrupts where it was armed. -/
theorem timeOut1_eq (v : Via) : v.timeOut1 =
    { v with
      armed1 := anyBit v.control Control.freeRun
      output1 :=
        if v.armed1 && anyBit v.control Control.timerOutput then
          !anyBit v.control Control.freeRun || !v.output1
        else v.output1
      flags := v.flags ||| (if v.armed1 then Flag.timer1 else 0) } := by
  obtain ⟨_, _, _, _, _, _, _, _, armed1, _, _, _, _, _, control, _, _, _, _, _⟩ := v
  unfold timeOut1 raise
  cases armed1 <;> cases anyBit control Control.freeRun <;>
    cases drives : anyBit control Control.timerOutput <;> simp [drives]

theorem timeOut2_eq (v : Via) : v.timeOut2 =
    { v with armed2 := false, flags := v.flags ||| (if v.armed2 then Flag.timer2 else 0) } := by
  obtain ⟨_, _, _, _, _, _, _, _, _, _, _, _, armed2, _, _, _, _, _, _, _⟩ := v
  cases armed2 <;> simp [timeOut2, raise]

/-- The timers raise flags of their own, and neither looks at the other. -/
theorem timeOut_comm (v : Via) : v.timeOut1.timeOut2 = v.timeOut2.timeOut1 := by
  have flags : ∀ flag₁ flag₂ : UInt8, v.flags ||| flag₁ ||| flag₂ = v.flags ||| flag₂ ||| flag₁ :=
    fun _ _ => by ac_rfl
  rw [timeOut2_eq v.timeOut1, timeOut1_eq v, timeOut1_eq v.timeOut2, timeOut2_eq v]
  simp only [flags (if v.armed1 then Flag.timer1 else 0)]

theorem expire_comm (v : Via) (e e' : Event) : (v.expire e).expire e' = (v.expire e').expire e := by
  cases e <;> cases e'
  · rfl
  · exact v.timeOut_comm
  · exact v.timeOut_comm.symm
  · rfl

theorem latch1_expire (v : Via) (e : Event) : (v.expire e).latch1 = v.latch1 := by
  cases e with
  | timer1 => rw [expire, timeOut1_eq]
  | timer2 => rw [expire, timeOut2_eq]

theorem period_expire (v : Via) (e e' : Event) : (v.expire e).period e' = v.period e' := by
  cases e' with
  | timer1 => exact congrArg (·.toNat + 2) (v.latch1_expire e)
  | timer2 => rfl

variable {ε : Type} [DecidableEq ε] (event : Event → ε)

/-- Handling an alarm is what `expire` and `period` say. -/
theorem onAlarm_eq (v : Via) (clock : Clock ε) (e : Event) (due : Nat) :
    v.onAlarm event clock e due = do
      let clock ← clock.setAgain (event e) due (some (v.period e))
      return (v.expire e, clock) := by
  cases e with
  | timer1 =>
    simp only [onAlarm, setAgain, period]
    cases Cycle.add due (v.latch1.toNat + 2) <;> rfl
  | timer2 =>
    simp only [onAlarm, setAgain, period]
    cases Cycle.add due 0x10000 <;> rfl

/-! ## Clocks behind an operation -/

theorem reset_reachable {clock : Clock ε} (hc : clock.Reachable) :
    (reset event clock).2.Reachable :=
  (hc.cancel (event .timer1)).cancel (event .timer2)

variable [ToString ε]

theorem runTimer2_reachable {v : Via} {clock clock' : Clock ε} (hc : clock.Reachable)
    (h : v.runTimer2 event clock = .ok clock') : clock'.Reachable := by
  obtain ⟨⟨due, c⟩, hset, hret⟩ := bind_eq_ok.mp h
  cases hret
  exact hc.setAlarmIn hset

theorem startTimer1_reachable {v v' : Via} {clock clock' : Clock ε} {high : UInt8}
    (hc : clock.Reachable) (h : v.startTimer1 event clock high = .ok (v', clock')) :
    clock'.Reachable := by
  obtain ⟨⟨due, c⟩, hset, hret⟩ := bind_eq_ok.mp h
  cases hret
  exact hc.setAlarmIn hset

theorem startTimer2_reachable {v v' : Via} {clock clock' : Clock ε} {high : UInt8}
    (hc : clock.Reachable) (h : v.startTimer2 event clock high = .ok (v', clock')) :
    clock'.Reachable := by
  unfold startTimer2 at h
  simp only [] at h
  split at h
  · cases h; exact hc
  · obtain ⟨c, hrun, hret⟩ := bind_eq_ok.mp h
    cases hret
    exact runTimer2_reachable event hc hrun

theorem writeControl_reachable {v v' : Via} {clock clock' : Clock ε} {b : UInt8}
    (hc : clock.Reachable) (h : v.writeControl event clock b = .ok (v', clock')) :
    clock'.Reachable := by
  unfold writeControl at h
  simp only [] at h
  split at h
  · cases h; exact hc.cancel (event .timer2)
  · split at h
    · obtain ⟨c, hrun, hret⟩ := bind_eq_ok.mp h
      cases hret
      exact runTimer2_reachable event hc hrun
    · cases h; exact hc

theorem write_reachable {v v' : Via} {clock clock' : Clock ε} {register b : UInt8}
    (hc : clock.Reachable) (h : v.write event clock register b = .ok (v', clock')) :
    clock'.Reachable := by
  unfold write at h
  split at h
  case h_7 => exact startTimer1_reachable event hc h
  case h_10 => exact startTimer2_reachable event hc h
  case h_12 => exact writeControl_reachable event hc h
  all_goals (cases h; exact hc)

end C64.Via
