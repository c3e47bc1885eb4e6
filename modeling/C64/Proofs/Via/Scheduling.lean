import C64.Proofs.Clock.Pending
import C64.Proofs.Via.Alarms

/-!
# Which alarms of the versatile adapter wait

Timer 1 has an alarm from its first start on, and it comes back for ever. Timer 2 may have one
only while it counts cycles (`Via.Scheduled`): the control register that lets it count pulses takes
the alarm away.
-/

namespace C64.Via

open Clock Function

/-- Timer 2 has no alarm while it counts pulses. -/
def Scheduled (v : Via) (pending : Event → Bool) : Prop :=
  pending .timer2 = true → v.countsPulses = false

theorem Scheduled.of_control {v v' : Via} {pending : Event → Bool} (h : v.Scheduled pending)
    (control : v'.control = v.control) : v'.Scheduled pending := by
  unfold Scheduled countsPulses
  rw [control]
  exact h

theorem expire_control (v : Via) (e : Event) : (v.expire e).control = v.control := by
  cases e with
  | timer1 =>
    simp only [expire, timeOut1]
    split
    · split <;> rfl
    · split <;> rfl
  | timer2 =>
    simp only [expire, timeOut2]
    split <;> rfl

/-- Both alarms come again, and neither changes what timer 2 counts. -/
theorem Scheduled.expire {v : Via} {pending : Event → Bool} (h : v.Scheduled pending) {e : Event}
    (he : pending e = true) : (v.expire e).Scheduled (update pending e true) := by
  rw [update_eq_self_iff.mpr he.symm]
  exact h.of_control (v.expire_control e)

/-! ## Registers -/

section Operations

variable {ε : Type} (event : Event → ε)

/-- An event of the machine that is one of the chip's. -/
def Owns (x : ε) : Prop := ∃ e, event e = x

theorem owns (e : Event) : Owns event (event e) := ⟨e, rfl⟩

variable [DecidableEq ε]

theorem reset_tends (clock : Clock ε) : Tends (Owns event) clock (reset event clock).2 :=
  (Tends.cancel clock (owns event .timer1)).trans (.cancel _ (owns event .timer2))

/-- Behind a reset no alarm of the chip waits. -/
theorem reset_pending (clock : Clock ε) (e : Event) :
    (reset event clock).2.isPending (event e) = false := by
  unfold reset
  simp only [isPending_cancel]
  cases e <;> simp [update_apply]

variable [ToString ε]

theorem runTimer2_ok {v : Via} {clock clock' : Clock ε} (h : v.runTimer2 event clock = .ok clock') :
    clock'.isPending = update clock.isPending (event .timer2) true ∧
      Tends (Owns event) clock clock' := by
  obtain ⟨⟨due, clock₁⟩, hset, hret⟩ := bind_eq_ok.mp h
  cases hret
  exact ⟨setAlarmIn_ok hset ▸ isPending_setAlarm ..,
    .setAlarmIn (owns event .timer2) (Nat.succ_pos _) hset⟩

theorem startTimer1_scheduled (inj : Injective event) {v v' : Via} {clock clock' : Clock ε}
    {high : UInt8} (hv : v.Scheduled (clock.isPending ∘ event))
    (h : v.startTimer1 event clock high = .ok (v', clock')) :
    v'.Scheduled (clock'.isPending ∘ event) ∧ Tends (Owns event) clock clock' := by
  obtain ⟨⟨due, clock₁⟩, hset, hret⟩ := bind_eq_ok.mp h
  cases hret
  refine ⟨?_, .setAlarmIn (owns event .timer1) (Nat.succ_pos _) hset⟩
  rw [setAlarmIn_ok hset, isPending_setAlarm, update_comp_eq_of_injective _ inj]
  intro waits
  rw [update_of_ne (by simp)] at waits
  exact hv waits

theorem startTimer2_scheduled {v v' : Via} {clock clock' : Clock ε}
    {high : UInt8} (hv : v.Scheduled (clock.isPending ∘ event))
    (h : v.startTimer2 event clock high = .ok (v', clock')) :
    v'.Scheduled (clock'.isPending ∘ event) ∧ Tends (Owns event) clock clock' := by
  unfold startTimer2 at h
  simp only [] at h
  split at h
  · cases h; exact ⟨hv.of_control rfl, .refl _⟩
  · next counts =>
    obtain ⟨clock₁, hrun, hret⟩ := bind_eq_ok.mp h
    cases hret
    exact ⟨fun _ => Bool.eq_false_iff.mpr counts, (runTimer2_ok event hrun).2⟩

theorem writeControl_scheduled {v v' : Via} {clock clock' : Clock ε}
    {b : UInt8} (hv : v.Scheduled (clock.isPending ∘ event))
    (h : v.writeControl event clock b = .ok (v', clock')) :
    v'.Scheduled (clock'.isPending ∘ event) ∧ Tends (Owns event) clock clock' := by
  unfold writeControl at h
  simp only [] at h
  split at h
  · -- From now on timer 2 counts pulses, and its alarm is taken away.
    cases h
    refine ⟨fun waits => ?_, .cancel _ (owns event .timer2)⟩
    rw [comp_apply, isPending_cancel, update_self] at waits
    exact absurd waits (by simp)
  · next toPulses =>
    split at h
    · next toCycles =>
      obtain ⟨clock₁, hrun, hret⟩ := bind_eq_ok.mp h
      cases hret
      refine ⟨fun _ => ?_, (runTimer2_ok event hrun).2⟩
      simp only [Bool.and_eq_true, Bool.not_eq_true'] at toCycles
      exact toCycles.1
    · next toCycles =>
      cases h
      refine ⟨fun waits => ?_, .refl _⟩
      have counted := hv waits
      simp only [counted, Bool.not_false, Bool.and_true, Bool.not_eq_true] at toPulses
      exact toPulses

theorem write_scheduled (inj : Injective event) {v v' : Via} {clock clock' : Clock ε}
    {register b : UInt8} (hv : v.Scheduled (clock.isPending ∘ event))
    (h : v.write event clock register b = .ok (v', clock')) :
    v'.Scheduled (clock'.isPending ∘ event) ∧ Tends (Owns event) clock clock' := by
  unfold write at h
  split at h
  case h_7 => exact startTimer1_scheduled event inj hv h
  case h_10 => exact startTimer2_scheduled event hv h
  case h_12 => exact writeControl_scheduled event hv h
  all_goals (cases h; exact ⟨hv.of_control rfl, .refl _⟩)

theorem runTimer2_nextOrder {v : Via} {clock clock' : Clock ε}
    (h : v.runTimer2 event clock = .ok clock') : clock'.nextOrder = clock.nextOrder + 1 := by
  obtain ⟨⟨due, clock₁⟩, hset, hret⟩ := bind_eq_ok.mp h
  cases hret
  exact setAlarmIn_nextOrder hset

/-- A write sets one alarm at most. -/
theorem write_nextOrder {v v' : Via} {clock clock' : Clock ε} {register b : UInt8}
    (h : v.write event clock register b = .ok (v', clock')) :
    clock'.nextOrder ≤ clock.nextOrder + 1 := by
  unfold write at h
  split at h
  case h_7 =>
    obtain ⟨⟨due, clock₁⟩, hset, hret⟩ := bind_eq_ok.mp h
    cases hret
    exact Nat.le_of_eq (setAlarmIn_nextOrder hset)
  case h_10 =>
    unfold startTimer2 at h
    simp only [] at h
    split at h
    · cases h
      exact Nat.le_succ _
    · obtain ⟨clock₁, hrun, hret⟩ := bind_eq_ok.mp h
      cases hret
      exact Nat.le_of_eq (runTimer2_nextOrder event hrun)
  case h_12 =>
    unfold writeControl at h
    simp only [] at h
    split at h
    · cases h
      exact Nat.le_succ _
    · split at h
      · obtain ⟨clock₁, hrun, hret⟩ := bind_eq_ok.mp h
        cases hret
        exact Nat.le_of_eq (runTimer2_nextOrder event hrun)
      · cases h
        exact Nat.le_succ _
  all_goals (cases h; exact Nat.le_succ _)

end Operations

end C64.Via
