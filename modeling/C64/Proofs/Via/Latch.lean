import C64.Via

/-!
# A running timer and a new latch

Timer 1 keeps no counter while it runs. What it shows is told from the cycles left until its alarm,
and the cycle it waits in before it is loaded again from the latch: there as many cycles are left as
the whole period has (`Via.timer1_running`). A write to the latch leaves the alarm where it is, so
the timer goes on to time out when it would have, and the new latch is the one of the next period.
The counter that is shown can jump all the same: it does so just where one of the latches, the old
or the new, is two below the cycles left and the other is not (`Via.write_latch`).
-/

namespace C64.Via

/-- The latch of timer 1 is all that the register is written for. -/
def IsLatch (register : UInt8) : Prop :=
  register &&& 0x0F = 0x4 ∨ register &&& 0x0F = 0x6 ∨ register &&& 0x0F = 0x7

instance (register : UInt8) : Decidable (IsLatch register) :=
  inferInstanceAs (Decidable (_ ∨ _ ∨ _))

/-- The chip behind a write to the latch. The write of the high byte takes the interrupt back. -/
def latched (v : Via) (register b : UInt8) : Via :=
  if register &&& 0x0F = 0x7 then
    { v.clear Flag.timer1 with latch1 := wordOf b (lowByte v.latch1) }
  else { v with latch1 := wordOf (highByte v.latch1) b }

/-- The counter of a timer whose alarm is some cycles away. -/
def countDown (latch remaining : Nat) : Nat :=
  if remaining = latch + 2 then 0xFFFF else min (remaining - 1) 0xFFFF

/-- The last two cycles that a counter can have left look like the one before it is loaded. -/
theorem countDown_full {latch remaining : Nat} (far : 0x10000 ≤ remaining) :
    countDown latch remaining = 0xFFFF := by
  unfold countDown
  split
  · rfl
  · omega

/-- Near to the alarm the latch shows in the one cycle only. -/
theorem countDown_near {latch remaining : Nat} (near : remaining < 0x10000) :
    countDown latch remaining = 0xFFFF ↔ remaining = latch + 2 := by
  unfold countDown
  split
  · next waits => exact iff_of_true rfl waits
  · next counts => exact iff_of_false (by omega) counts

/-- What two latches make of the same distance. -/
theorem countDown_eq_iff {latch latch' remaining : Nat} :
    countDown latch' remaining = countDown latch remaining ↔
      (remaining = latch + 2 ↔ remaining = latch' + 2) ∨ 0x10000 ≤ remaining := by
  obtain near | far := Nat.lt_or_ge remaining 0x10000
  · rw [or_iff_left (Nat.not_le.mpr near), ← countDown_near near, ← countDown_near near]
    refine ⟨fun same => by rw [same], fun both => ?_⟩
    by_cases waits : countDown latch remaining = 0xFFFF
    · rw [waits, both.mp waits]
    · -- Neither latch is two below, and both counters are the distance less one.
      have counts := mt (countDown_near near).mpr waits
      have counts' := mt (countDown_near near).mpr (mt both.mpr waits)
      unfold countDown
      rw [if_neg counts, if_neg counts']
  · exact iff_of_true (by rw [countDown_full far, countDown_full far]) (.inr far)

variable {ε : Type} [DecidableEq ε] (event : Event → ε)

/-- The counter of a running timer, by the distance of its alarm. -/
theorem timer1_running (v : Via) {clock : Clock ε} {remaining : Nat}
    (running : clock.cyclesUntil? (event .timer1) = some remaining) :
    (v.timer1 event clock).toNat = countDown v.latch1.toNat remaining := by
  unfold timer1 countDown
  rw [running]
  simp only []
  split
  · rfl
  · rw [Nat.toUInt16_eq, UInt16.toNat_ofNat_of_lt' (by simp only [UInt16.size]; omega)]

/-- The low and the high register show the two bytes of the counter. -/
theorem peek_timer1 (v : Via) (clock : Clock ε) :
    wordOf (v.peek event clock 0x5) (v.peek event clock 0x4) = v.timer1 event clock :=
  wordOf_bytes _

theorem write_latch_eq [ToString ε] (v : Via) (clock : Clock ε) {register : UInt8}
    (latch : IsLatch register) (b : UInt8) :
    v.write event clock register b = .ok (v.latched register b, clock) := by
  unfold write latched
  obtain at' | at' | at' := latch <;> rw [at'] <;> rfl

/-- A write to the latch of a running timer 1 comes out well at every chip and clock, and moves no
alarm. The counter that the chip shows, and the registers with it, stays what it was just where the
alarm is two cycles further away than both latches or than neither, or so far away that the counter
is full in any case. -/
theorem write_latch [ToString ε] (v : Via) {clock : Clock ε} {register : UInt8}
    (latch : IsLatch register) (b : UInt8) {remaining : Nat}
    (running : clock.cyclesUntil? (event .timer1) = some remaining) :
    v.write event clock register b = .ok (v.latched register b, clock) ∧
      ((v.latched register b).timer1 event clock = v.timer1 event clock ↔
        (remaining = v.latch1.toNat + 2 ↔ remaining = (v.latched register b).latch1.toNat + 2) ∨
          0x10000 ≤ remaining) ∧
      (((v.latched register b).peek event clock 0x4 = v.peek event clock 0x4 ∧
          (v.latched register b).peek event clock 0x5 = v.peek event clock 0x5) ↔
        (v.latched register b).timer1 event clock = v.timer1 event clock) := by
  refine ⟨write_latch_eq event v clock latch b, ?_, ?_, ?_⟩
  · rw [← UInt16.toNat_inj, timer1_running event _ running, timer1_running event _ running]
    exact countDown_eq_iff
  · rintro ⟨low, high⟩
    rw [← peek_timer1, ← peek_timer1 event v, low, high]
  · intro same
    exact ⟨congrArg lowByte same, congrArg highByte same⟩

/-- A chip from power-on whose timer 1 was started with ten, and its clock. -/
def startedAtTen : Except Fault (Via × Clock Event) := do
  let (v, clock) ← initial.write id Clock.zero 0x4 10
  v.write id clock 0x5 0

/-- While ten cycles are left, the latch can become two hundred and nothing of it shows. -/
theorem write_latch_twoHundred :
    ∃ v clock, startedAtTen = .ok (v, clock) ∧ clock.cyclesUntil? Event.timer1 = some 11 ∧
      v.write id clock 0x6 200 = .ok (v.latched 0x6 200, clock) ∧
      ((v.latched 0x6 200).timer1 id clock = v.timer1 id clock ↔
        (11 = v.latch1.toNat + 2 ↔ 11 = (v.latched 0x6 200).latch1.toNat + 2) ∨ 0x10000 ≤ 11) ∧
      (((v.latched 0x6 200).peek id clock 0x4 = v.peek id clock 0x4 ∧
          (v.latched 0x6 200).peek id clock 0x5 = v.peek id clock 0x5) ↔
        (v.latched 0x6 200).timer1 id clock = v.timer1 id clock) :=
  ⟨_, _, rfl, rfl, write_latch id _ (by decide) 200 rfl⟩

/-- The low byte of the latch becomes nine while the counter shows ten: the alarm is eleven cycles
away then, which is two more than the new latch, and the counter becomes full at once. -/
theorem latch_write_jumps :
    ∃ v clock v', startedAtTen = .ok (v, clock) ∧ v.write id clock 0x4 9 = .ok (v', clock) ∧
      v.timer1 id clock = 10 ∧ v'.timer1 id clock = 0xFFFF ∧
      v.peek id clock 0x4 = 10 ∧ v.peek id clock 0x5 = 0 ∧
      v'.peek id clock 0x4 = 0xFF ∧ v'.peek id clock 0x5 = 0xFF :=
  ⟨_, _, _, rfl, rfl, by decide, by decide, by decide, by decide, by decide, by decide⟩

end C64.Via
