import C64.Proofs.Cia.Scheduling
import C64.Proofs.Clock.Likeness

/-!
# The adapter on clocks that run alike

A chip answers the same on two clocks that are alike, and what a register write makes of it and of
the clocks is alike again. A reset makes one chip of any two of the same configuration, and sets up
their alarms alike on any two clocks.
-/

namespace C64.Cia

open Clock Function

variable {ε : Type} [DecidableEq ε] (event : Event → ε) {clock clock' : Clock ε}

theorem counter_alike (h : Alike every clock clock') (c : Cia) (which : TimerId) :
    c.counter event clock which = c.counter event clock' which := by
  unfold counter
  rw [h.cyclesUntil? rfl]

theorem peek_alike (h : Alike every clock clock') (c : Cia) (register : UInt8) :
    c.peek event clock register = c.peek event clock' register := by
  unfold peek
  simp only [counter_alike event h]

theorem read_alike (h : Alike every clock clock') (c : Cia) (register : UInt8) :
    c.read event clock register = c.read event clock' register := by
  unfold read
  simp only [peek_alike event h]

variable [ToString ε]

theorem scheduleTod_alike {P : ε → Bool} (h : Alike P clock clock') {c : Cia}
    (paced : c.config.Paced) :
    Together False (Alike (update P (event .tod) true)) (c.scheduleTod event clock)
      (c.scheduleTod event clock') := by
  unfold scheduleTod
  rw [todInterval_eq paced, ok_bind, ok_bind]
  exact (h.setAlarmIn (tenth_le paced) (event .tod)).andThen fun _ _ h => h

theorem startTimer_alike (h : Alike every clock clock') (c : Cia) (which : TimerId) :
    Together False (Alike every) (c.startTimer event clock which)
      (c.startTimer event clock' which) := by
  unfold startTimer
  split
  · exact (h.countDown _ _).andThen fun _ _ h => h
  · exact .ok h

theorem writeControl_alike (h : Alike every clock clock') {c : Cia} (paced : c.config.Paced)
    (which : TimerId) (b : UInt8) :
    Together False (Beside (Alike every)) (c.writeControl event clock which b)
      (c.writeControl event clock' which b) := by
  have same := counter_alike event h c which
  have kept : (c.withControl (c.counter event clock' which) which b).config.Paced := by
    unfold withControl
    rwa [withTimer_config]
  rw [writeControl_parts, writeControl_parts, same]
  refine (startTimer_alike event (h.cancel _).updated _ which).bind fun started started' h => ?_
  refine Together.bind (R := Alike every) ?_ fun _ _ h => .ok ⟨rfl, h⟩
  split
  · exact (scheduleTod_alike event h kept).mono fun _ _ h => h.updated
  · exact .ok h

theorem write_alike (h : Alike every clock clock') {c : Cia} (paced : c.config.Paced)
    (register b : UInt8) :
    Together False (Beside (Alike every)) (c.write event clock register b)
      (c.write event clock' register b) := by
  unfold write
  split
  case h_15 => exact writeControl_alike event h paced .a b
  case h_16 => exact writeControl_alike event h paced .b b
  all_goals exact .ok ⟨rfl, h⟩

/-- Whatever the chips and their alarms were, a reset makes them the same. -/
theorem reset_alike {P P' : ε → Bool} (h : Alike P clock clock') {c c' : Cia}
    (same : c.config = c'.config) (paced : c.config.Paced)
    (sub : ∀ e, P' e = true → P e = true ∨ Owns event e) :
    Together False (Beside (Alike P')) (c.reset event clock) (c'.reset event clock') := by
  have cleared := ((h.cancel (event (.timer .a))).cancel (event (.timer .b))).cancel (event .tod)
  unfold reset new
  rw [← same]
  refine (scheduleTod_alike event cleared (c := powerOn c.config) paced).andThen
    fun _ _ h => ⟨rfl, h.mono fun e he => ?_⟩
  rcases sub e he with he | ⟨which, rfl⟩
  · simp [update_apply, he]
  · rcases which with (_ | _) | _ <;> simp [update_apply]

end C64.Cia
