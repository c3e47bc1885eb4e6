import C64.Proofs.Clock.Likeness
import C64.Proofs.Via.Scheduling

/-!
# The versatile adapter on clocks that run alike

The chip answers the same on two clocks that are alike, and what a register write makes of it and
of the clocks is alike again. A reset takes its alarms from any two clocks.
-/

namespace C64.Via

open Clock Function

variable {ε : Type} [DecidableEq ε] (event : Event → ε) {clock clock' : Clock ε}

theorem timer2_alike (h : Alike every clock clock') (v : Via) :
    v.timer2 event clock = v.timer2 event clock' := by
  unfold timer2
  rw [h.cyclesUntil? rfl]

theorem peek_alike (h : Alike every clock clock') (v : Via) (register : UInt8) :
    v.peek event clock register = v.peek event clock' register := by
  have first : v.timer1 event clock = v.timer1 event clock' := by
    unfold timer1
    rw [h.cyclesUntil? rfl]
  unfold peek
  simp only [first, timer2_alike event h]

theorem read_alike (h : Alike every clock clock') (v : Via) (register : UInt8) :
    v.read event clock register = v.read event clock' register := by
  unfold read
  rw [peek_alike event h]

theorem reset_alike {P P' : ε → Bool} (h : Alike P clock clock')
    (sub : ∀ e, P' e = true → P e = true ∨ Owns event e) :
    Beside (Alike P') (reset event clock) (reset event clock') := by
  refine ⟨rfl, ((h.cancel (event .timer1)).cancel (event .timer2)).mono fun e he => ?_⟩
  rcases sub e he with he | ⟨_ | _, rfl⟩ <;> simp [update_apply, *]

variable [ToString ε]

theorem runTimer2_alike (h : Alike every clock clock') (v : Via) :
    Together False (Alike every) (v.runTimer2 event clock) (v.runTimer2 event clock') :=
  (h.countDown v.counter2 _).andThen fun _ _ h => h

theorem startTimer2_alike (h : Alike every clock clock') (v : Via) (high : UInt8) :
    Together False (Beside (Alike every)) (v.startTimer2 event clock high)
      (v.startTimer2 event clock' high) := by
  unfold startTimer2
  simp only []
  split
  · exact .ok ⟨rfl, h⟩
  · exact (runTimer2_alike event h _).andThen fun _ _ h => ⟨rfl, h⟩

theorem writeControl_alike (h : Alike every clock clock') (v : Via) (b : UInt8) :
    Together False (Beside (Alike every)) (v.writeControl event clock b)
      (v.writeControl event clock' b) := by
  unfold writeControl
  rw [timer2_alike event h]
  simp only []
  split
  · exact .ok ⟨rfl, (h.cancel _).updated⟩
  · split
    · exact (runTimer2_alike event h _).andThen fun _ _ h => ⟨rfl, h⟩
    · exact .ok ⟨rfl, h⟩

theorem write_alike (h : Alike every clock clock') (v : Via) (register b : UInt8) :
    Together False (Beside (Alike every)) (v.write event clock register b)
      (v.write event clock' register b) := by
  unfold write
  split
  case h_7 => exact (h.countDown _ _).andThen fun _ _ h => ⟨rfl, h⟩
  case h_10 => exact startTimer2_alike event h v b
  case h_12 => exact writeControl_alike event h v b
  all_goals exact .ok ⟨rfl, h⟩

end C64.Via
