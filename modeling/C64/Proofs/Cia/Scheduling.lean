import C64.Proofs.Cia.Alarms
import C64.Proofs.Clock.Pending

/-!
# Which alarms of the adapter wait

The time of day always has its alarm, and a timer has one exactly while its control register lets
it count cycles (`Cia.Scheduled`). A timer's alarm that fires is set again unless the timer was to
run once, and then the timer is stopped; the time of day sets its own again. Of the registers only
the two control registers touch the clock.
-/

namespace C64

theorem Cycle.mul_ok {a b n : Nat} (h : Cycle.mul a b = .ok n) : n = a * b := by
  unfold Cycle.mul at h
  split at h
  · cases h; rfl
  · exact absurd h (by simp)

namespace Cia

open Clock Function

/-- What waits is what the registers ask for. -/
structure Scheduled (c : Cia) (pending : Event → Bool) : Prop where
  tod : pending .tod = true
  timer : ∀ which, pending (.timer which) = Control.countsCycles which (c.timer which).control

/-- Whether a timer has an alarm follows from its control register. -/
theorem Scheduled.of_control {c c' : Cia} {pending : Event → Bool} (h : c.Scheduled pending)
    (control : ∀ which, (c'.timer which).control = (c.timer which).control) :
    c'.Scheduled pending :=
  ⟨h.tod, fun which => by rw [h.timer, control]⟩

/-! ## Alarms -/

/-- A timer that has run once counts no more. -/
theorem countsCycles_stop (which : TimerId) (control : UInt8) :
    Control.countsCycles which (control &&& ~~~Control.start) = false := by
  have : anyBit (control &&& ~~~Control.start) Control.start = false := by
    simp [anyBit, and_not_mask_and_mask]
  simp [Control.countsCycles, this]

/-- An underflow keeps the control register of a timer that runs on and stops any other. -/
theorem Timer.underflow_control (t : Timer) :
    t.underflow.control =
      if t.oneShot then t.control &&& ~~~Control.start else t.control :=
  rfl

/-- A timer that counts underflows counts no cycles, before and behind the last of them. -/
theorem countsCycles_of_chained {c : Cia} (h : c.chained = true) :
    Control.countsCycles .b c.timerB.control = false := by
  have source : c.timerB.control &&& Control.inputMode = Control.countUnderflows := by
    simp only [chained, Bool.and_eq_true, decide_eq_true_eq] at h
    exact h.2
  simp only [Control.countsCycles, anyBit, source]
  simp [Control.countUnderflows]

theorem Timer.countsCycles_underflow {t : Timer} {which : TimerId}
    (h : Control.countsCycles which t.control = false) :
    Control.countsCycles which t.underflow.control = false := by
  rw [underflow_control]
  split
  · exact countsCycles_stop which t.control
  · exact h

theorem countUnderflow_timerA (c : Cia) : c.countUnderflow.timerA = c.timerA := by
  unfold countUnderflow
  split <;> rfl

theorem countsCycles_countUnderflow {c : Cia}
    (h : Control.countsCycles .b c.timerB.control = false) :
    Control.countsCycles .b c.countUnderflow.timerB.control = false := by
  unfold countUnderflow
  split
  · exact Timer.countsCycles_underflow h
  · exact h

/-- Behind its own alarm a timer counts cycles if its alarm comes again. -/
theorem countsCycles_again {c : Cia} {which : TimerId}
    (h : Control.countsCycles which (c.timer which).control = true) :
    Control.countsCycles which (c.timer which).underflow.control =
      (c.again? (.timer which)).isSome := by
  rw [Timer.underflow_control, again?]
  cases (c.timer which).oneShot with
  | true => exact countsCycles_stop which _
  | false => exact h

theorem timer_expire_self (c : Cia) (which : TimerId) :
    (c.expire (.timer which)).timer which = (c.timer which).underflow := by
  cases which with
  | a =>
    unfold Cia.expire
    simp only []
    split
    · exact countUnderflow_timerA _
    · rfl
  | b => rfl

/-- Timer B, when it counts an underflow, may stop, but it had no alarm anyway. -/
theorem countsCycles_chain (c : Cia) :
    Control.countsCycles .b (if c.chained then c.countUnderflow else c).timerB.control =
      Control.countsCycles .b c.timerB.control := by
  split
  · next chained =>
    have none := countsCycles_of_chained chained
    rw [none, countsCycles_countUnderflow none]
  · rfl

theorem countsCycles_expire_other (c : Cia) {which other : TimerId} (h : other ≠ which) :
    Control.countsCycles other ((c.expire (.timer which)).timer other).control =
      Control.countsCycles other (c.timer other).control := by
  cases which <;> cases other <;> first | exact absurd rfl h | skip
  · exact countsCycles_chain ((c.raise (Source.timer .a)).withTimer .a c.timerA.underflow)
  · rfl

theorem expire_tod_control (c : Cia) (which : TimerId) :
    ((c.expire .tod).timer which).control = (c.timer which).control := by
  unfold Cia.expire advanceTod
  simp only []
  split
  · rfl
  · split <;> cases which <;> rfl

/-- An alarm of the chip keeps its registers and what waits together. -/
theorem Scheduled.expire {c : Cia} {pending : Event → Bool} (h : c.Scheduled pending) {e : Event}
    (he : pending e = true) : (c.expire e).Scheduled (update pending e (c.again? e).isSome) := by
  cases e with
  | timer which =>
    have counts := (h.timer which).symm.trans he
    refine ⟨by rw [update_of_ne (by simp)]; exact h.tod, fun other => ?_⟩
    by_cases same : other = which
    · subst same
      rw [update_self, timer_expire_self, countsCycles_again counts]
    · rw [update_of_ne (by simpa using same), h.timer, countsCycles_expire_other c same]
  | tod =>
    have same : update pending .tod (c.again? .tod).isSome = pending :=
      update_eq_self_iff.mpr h.tod.symm
    rw [same]
    exact h.of_control c.expire_tod_control

/-! ## Registers -/

section Operations

theorem todInterval_ok {c : Cia} {delay : Nat} (h : c.todInterval = .ok delay) :
    delay = c.tenth := by
  obtain ⟨product, hmul, hret⟩ := bind_eq_ok.mp h
  cases hret
  rw [Cycle.mul_ok hmul]
  rfl

variable {ε : Type} (event : Event → ε)

/-- Handling an alarm, when it comes out well, is what `expire` and `again?` say, whatever the
rate of the time of day. -/
theorem onAlarm_ok [DecidableEq ε] {c c' : Cia} {clock clock' : Clock ε} {e : Event} {due : Nat}
    (h : c.onAlarm event clock e due = .ok (c', clock')) :
    clock.setAgain (event e) due (c.again? e) = .ok clock' ∧ c' = c.expire e := by
  cases e with
  | timer which =>
    cases which with
    | a =>
      simp only [onAlarm, underflow_eq] at h
      obtain ⟨_, hunder, hret⟩ := bind_eq_ok.mp h
      obtain ⟨clock₁, hset, hstop⟩ := bind_eq_ok.mp hunder
      cases hstop
      cases hret
      exact ⟨hset, rfl⟩
    | b =>
      simp only [onAlarm, underflow_eq] at h
      obtain ⟨clock₁, hset, hret⟩ := bind_eq_ok.mp h
      cases hret
      exact ⟨hset, rfl⟩
  | tod =>
    simp only [onAlarm] at h
    obtain ⟨delay, hdelay, h⟩ := bind_eq_ok.mp h
    obtain ⟨next, hadd, hret⟩ := bind_eq_ok.mp h
    cases hret
    obtain rfl := todInterval_ok hdelay
    refine ⟨?_, rfl⟩
    show (do return clock.setAlarm (← Cycle.add due _) _) = _
    rw [show Cycle.add due (c.expire .tod).tenth = .ok next from hadd]
    rfl

/-- It comes out well wherever the alarm can be set again. -/
theorem onAlarm_of_setAgain [DecidableEq ε] {c : Cia} {clock clock' : Clock ε} {e : Event}
    {due : Nat} (h : clock.setAgain (event e) due (c.again? e) = .ok clock') :
    c.onAlarm event clock e due = .ok (c.expire e, clock') := by
  cases e with
  | timer which =>
    cases which with
    | a =>
      simp only [onAlarm, underflow_eq]
      rw [h]
      rfl
    | b =>
      simp only [onAlarm, underflow_eq]
      rw [h]
      rfl
  | tod =>
    -- A tenth that an alarm can be set after is no overflow itself.
    have room := clock.setAgain_eq_ok.mp ⟨_, h⟩ _ rfl
    have interval : (c.expire .tod).todInterval = .ok (c.expire .tod).tenth :=
      todInterval_eq_of_le (Nat.le_trans (Nat.le_add_left ..) room)
    obtain ⟨next, hadd, hret⟩ := bind_eq_ok.mp h
    cases hret
    show ((c.expire .tod).todInterval >>= _) = _
    rw [interval, ok_bind]
    show (do return (c.expire .tod, clock.setAlarm (← Cycle.add due _) _)) = _
    rw [hadd]
    rfl

/-- An event of the machine that is one of the chip's. -/
def Owns (x : ε) : Prop := ∃ e, event e = x

theorem owns (e : Event) : Owns event (event e) := ⟨e, rfl⟩

variable [DecidableEq ε] [ToString ε]

theorem scheduleTod_ok {c : Cia} {clock clock' : Clock ε}
    (h : c.scheduleTod event clock = .ok clock') :
    clock' = clock.setAlarm (clock.now + c.tenth) (event .tod) ∧
      Tends (Owns event) clock clock' := by
  obtain ⟨delay, hdelay, h⟩ := bind_eq_ok.mp h
  obtain ⟨⟨due, clock₁⟩, hset, hret⟩ := bind_eq_ok.mp h
  cases hret
  obtain rfl := todInterval_ok hdelay
  exact ⟨setAlarmIn_ok hset, .setAlarmIn (owns event .tod) (one_le_tenth c) hset⟩

/-- The time of day waits behind its scheduling, and nothing else changes. -/
theorem pending_scheduleTod (inj : Injective event) {c : Cia} {clock clock' : Clock ε}
    (h : c.scheduleTod event clock = .ok clock') :
    clock'.isPending ∘ event = update (clock.isPending ∘ event) .tod true := by
  rw [(scheduleTod_ok event h).1, isPending_setAlarm, update_comp_eq_of_injective _ inj]

theorem new_scheduled (inj : Injective event) {config : Config} {c : Cia} {clock clock' : Clock ε}
    (h : new event config clock = .ok (c, clock'))
    (timers : ∀ which, clock.isPending (event (.timer which)) = false) :
    c.Scheduled (clock'.isPending ∘ event) ∧ Tends (Owns event) clock clock' := by
  obtain ⟨clock₁, htod, hret⟩ := bind_eq_ok.mp h
  cases hret
  refine ⟨?_, (scheduleTod_ok event htod).2⟩
  rw [pending_scheduleTod event inj htod]
  refine ⟨update_self .., fun which => ?_⟩
  rw [update_of_ne (by simp), comp_apply, timers]
  cases which <;> simp [powerOn, timer, Timer.initial, Control.countsCycles, anyBit]

theorem reset_scheduled (inj : Injective event) {c c' : Cia} {clock clock' : Clock ε}
    (h : c.reset event clock = .ok (c', clock')) :
    c'.Scheduled (clock'.isPending ∘ event) ∧ Tends (Owns event) clock clock' := by
  have cleared := ((Tends.cancel clock (owns event (.timer .a))).trans
    (.cancel _ (owns event (.timer .b)))).trans (.cancel _ (owns event .tod))
  obtain ⟨scheduled, tends⟩ := new_scheduled event inj h fun which => by
    simp only [isPending_cancel]
    cases which <;> simp [update_apply]
  exact ⟨scheduled, cleared.trans tends⟩

/-- The chip with a control register written, when its timer had come to `count`. -/
def withControl (c : Cia) (count : UInt16) (which : TimerId) (b : UInt8) : Cia :=
  let t := c.timer which
  c.withTimer which
    { t with control := b, counter := if anyBit b Control.forceLoad then t.latch else count }

omit [DecidableEq ε] [ToString ε] in
theorem withControl_control (c : Cia) (count : UInt16) (which : TimerId) (b : UInt8)
    (other : TimerId) :
    ((c.withControl count which b).timer other).control =
      if other = which then b else (c.timer other).control := by
  cases which <;> cases other <;> rfl

/-- Sets the alarm of a timer that counts cycles. -/
def startTimer (c : Cia) (clock : Clock ε) (which : TimerId) : Except Fault (Clock ε) :=
  if Control.countsCycles which (c.timer which).control then do
    return (← clock.setAlarmIn ((c.timer which).counter.toNat + 1) (event (.timer which))).2
  else .ok clock

/-- Writing a control register in parts: the chip, the alarm of the timer and, where the rate of
its pulses changes, that of the time of day. -/
theorem writeControl_parts (c : Cia) (clock : Clock ε) (which : TimerId) (b : UInt8) :
    let written := c.withControl (c.counter event clock which) which b
    c.writeControl event clock which b =
      written.startTimer event (clock.cancel (event (.timer which))) which >>= fun started =>
        (if which = .a ∧ anyBit (c.timerA.control ^^^ b) Control.fiftyHertz then
          written.scheduleTod event started
        else .ok started) >>= fun clock' => .ok (written, clock') := by
  -- Every choice that the registers make is made first; what is left runs the same way.
  have rate : ∀ (written : Cia) (started : Clock ε) (changed : Prop) [Decidable changed],
      (if changed then do
        let clock ← written.scheduleTod event started
        pure (written, clock)
      else pure (written, started)) =
        (if changed then written.scheduleTod event started else .ok started) >>= fun clock =>
          Except.ok (written, clock) := by
    intro written started changed _
    split <;> rfl
  unfold writeControl freeze startTimer withControl
  cases which <;> cases load : anyBit b Control.forceLoad <;>
    simp only [withTimer, timer, Bool.false_eq_true, if_true, if_false, pure_bind, rate] <;>
    split <;> first
      | rfl
      | (rw [bind_assoc]; rfl)

/-- What it makes of the chip does not depend on the alarms that it sets. -/
theorem writeControl_withControl {c c' : Cia} {clock clock' : Clock ε} {which : TimerId} {b : UInt8}
    (h : c.writeControl event clock which b = .ok (c', clock')) :
    c' = c.withControl (c.counter event clock which) which b := by
  rw [writeControl_parts] at h
  obtain ⟨started, -, h⟩ := bind_eq_ok.mp h
  obtain ⟨scheduled, -, hret⟩ := bind_eq_ok.mp h
  cases hret
  rfl

/-- A control value for one timer, the alarm that it asks for, and perhaps a new alarm for the
time of day. -/
theorem Scheduled.control (inj : Injective event) {c c' : Cia} {clock clock₁ clock' : Clock ε}
    {which : TimerId} {b : UInt8} (hc : c.Scheduled (clock.isPending ∘ event))
    (control : ∀ other, (c'.timer other).control =
      if other = which then b else (c.timer other).control)
    (started : clock₁.isPending ∘ event =
      update (clock.isPending ∘ event) (.timer which) (Control.countsCycles which b))
    (rate : clock' = clock₁ ∨ ∃ c₁ : Cia, c₁.scheduleTod event clock₁ = .ok clock') :
    c'.Scheduled (clock'.isPending ∘ event) := by
  have timed : c'.Scheduled (clock₁.isPending ∘ event) := by
    rw [started]
    refine ⟨by rw [update_of_ne (by simp)]; exact hc.tod, fun other => ?_⟩
    rw [control]
    by_cases same : other = which
    · subst same
      rw [update_self, if_pos rfl]
    · rw [update_of_ne (by simpa using same), if_neg same, hc.timer]
  rcases rate with rfl | ⟨_, htod⟩
  · exact timed
  · rw [pending_scheduleTod event inj htod]
    exact ⟨update_self .., fun other => by rw [update_of_ne (by simp), timed.timer]⟩

/-- Writing a control register moves the alarm of its timer, and perhaps that of the time of
day. -/
theorem writeControl_scheduled (inj : Injective event) {c c' : Cia} {clock clock' : Clock ε}
    {which : TimerId} {b : UInt8} (hc : c.Scheduled (clock.isPending ∘ event))
    (h : c.writeControl event clock which b = .ok (c', clock')) :
    c'.Scheduled (clock'.isPending ∘ event) ∧ Tends (Owns event) clock clock' := by
  have stopped : Tends (Owns event) clock (clock.cancel (event (.timer which))) :=
    .cancel _ (owns event _)
  have cleared : (clock.cancel (event (.timer which))).isPending ∘ event =
      update (clock.isPending ∘ event) (.timer which) false := by
    rw [isPending_cancel, update_comp_eq_of_injective _ inj]
  have written := withControl_control c (c.counter event clock which) which b
  rw [writeControl_parts] at h
  obtain ⟨clock₁, hstart, h⟩ := bind_eq_ok.mp h
  obtain ⟨clock₂, hrate, hret⟩ := bind_eq_ok.mp h
  cases hret
  have started : Tends (Owns event) clock clock₁ ∧ clock₁.isPending ∘ event =
      update (clock.isPending ∘ event) (.timer which) (Control.countsCycles which b) := by
    unfold startTimer at hstart
    rw [written, if_pos rfl] at hstart
    cases counts : Control.countsCycles which b with
    | true =>
      rw [counts, if_pos rfl] at hstart
      obtain ⟨⟨due, clock₃⟩, hset, hret⟩ := bind_eq_ok.mp hstart
      cases hret
      refine ⟨stopped.trans (.setAlarmIn (owns event _) (Nat.succ_pos _) hset), ?_⟩
      rw [setAlarmIn_ok hset, isPending_setAlarm, update_comp_eq_of_injective _ inj, cleared,
        update_idem]
    | false =>
      rw [counts, if_neg (by simp)] at hstart
      cases hstart
      exact ⟨stopped, cleared⟩
  split at hrate
  · exact ⟨hc.control event inj written started.2 (.inr ⟨_, hrate⟩),
      started.1.trans (scheduleTod_ok event hrate).2⟩
  · cases hrate
    exact ⟨hc.control event inj written started.2 (.inl rfl), started.1⟩

theorem writeTod_control (c : Cia) (part : TimePart) (b : UInt8) (which : TimerId) :
    ((c.writeTod part b).timer which).control = (c.timer which).control := by
  unfold writeTod
  simp only []
  split <;> cases which <;> rfl

theorem writeHigh_control (t : Timer) (b : UInt8) : (t.writeHigh b).control = t.control := by
  unfold Timer.writeHigh
  simp only []
  split <;> rfl

theorem write_scheduled (inj : Injective event) {c c' : Cia} {clock clock' : Clock ε}
    {register b : UInt8} (hc : c.Scheduled (clock.isPending ∘ event))
    (h : c.write event clock register b = .ok (c', clock')) :
    c'.Scheduled (clock'.isPending ∘ event) ∧ Tends (Owns event) clock clock' := by
  unfold write at h
  split at h
  case h_9 | h_10 | h_11 | h_12 =>
    cases h; exact ⟨hc.of_control (writeTod_control c _ b), .refl _⟩
  case h_6 | h_8 =>
    cases h
    refine ⟨hc.of_control fun which => ?_, .refl _⟩
    cases which <;> first | rfl | exact writeHigh_control _ b
  case h_13 =>
    cases h
    refine ⟨hc.of_control fun which => ?_, .refl _⟩
    split <;> cases which <;> rfl
  case h_15 => exact writeControl_scheduled event inj hc h
  case h_16 => exact writeControl_scheduled event inj hc h
  all_goals (cases h; exact ⟨hc.of_control fun which => by cases which <;> rfl, .refl _⟩)

/-! ### Numbers -/

theorem scheduleTod_nextOrder {c : Cia} {clock clock' : Clock ε}
    (h : c.scheduleTod event clock = .ok clock') : clock'.nextOrder = clock.nextOrder + 1 := by
  rw [(scheduleTod_ok event h).1]
  rfl

theorem startTimer_nextOrder {c : Cia} {clock clock' : Clock ε} {which : TimerId}
    (h : c.startTimer event clock which = .ok clock') :
    clock'.nextOrder ≤ clock.nextOrder + 1 := by
  unfold startTimer at h
  split at h
  · obtain ⟨⟨due, clock₁⟩, hset, hret⟩ := bind_eq_ok.mp h
    cases hret
    exact Nat.le_of_eq (setAlarmIn_nextOrder hset)
  · cases h
    exact Nat.le_succ _

/-- A write sets two alarms at most: that of a timer and that of the time of day. -/
theorem write_nextOrder {c c' : Cia} {clock clock' : Clock ε} {register b : UInt8}
    (h : c.write event clock register b = .ok (c', clock')) :
    clock'.nextOrder ≤ clock.nextOrder + 2 := by
  have control : ∀ which, c.writeControl event clock which b = .ok (c', clock') →
      clock'.nextOrder ≤ clock.nextOrder + 2 := by
    intro which h
    rw [writeControl_parts] at h
    obtain ⟨clock₁, hstart, h⟩ := bind_eq_ok.mp h
    obtain ⟨clock₂, hrate, hret⟩ := bind_eq_ok.mp h
    cases hret
    have started := startTimer_nextOrder event hstart
    have stopped : (clock.cancel (event (.timer which))).nextOrder = clock.nextOrder := rfl
    rw [stopped] at started
    split at hrate
    · have := scheduleTod_nextOrder event hrate
      omega
    · cases hrate
      omega
  unfold write at h
  split at h
  case h_15 => exact control .a h
  case h_16 => exact control .b h
  all_goals (cases h; exact Nat.le_add_right _ 2)

omit [ToString ε] in
theorem read_control (c : Cia) (clock : Clock ε) (register : UInt8) (which : TimerId) :
    ((c.read event clock register).2.timer which).control = (c.timer which).control := by
  unfold read
  simp only []
  split <;> cases which <;> rfl

end Operations

end Cia

end C64
