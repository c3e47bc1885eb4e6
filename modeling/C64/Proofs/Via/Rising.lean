import C64.Proofs.Via.FreeRun
import C64.Proofs.Via.Scheduling
import C64.Proofs.Via.Turns

/-!
# Interrupts that are armed

A start of a timer arms its interrupt, and the time-out that raises it takes that back
(`Via.Raises`). What else happens may clear the flag, but never sets it (`Via.Spends`). So the flag
rises as often as the interrupt was spent: once, or not yet (`Via.rises_add_armed`).
-/

namespace C64

/-- Two bytes have a bit of the mask together where one of them has. -/
theorem anyBit_or (b b' mask : UInt8) :
    anyBit (b ||| b') mask = (anyBit b mask || anyBit b' mask) := by
  have apart : (b ||| b') &&& mask = b &&& mask ||| b' &&& mask := by
    rw [← UInt8.toBitVec_inj]
    ext i
    simp [Bool.and_or_distrib_right]
  unfold anyBit
  rw [apart, Bool.eq_iff_iff]
  simp [UInt8.or_eq_zero_iff, ← not_and_or]

namespace Via

open Clock Function

variable {ε σ : Type}

namespace Event

/-- The interrupt flag of a timer. -/
def flag : Event → UInt8
  | timer1 => Flag.timer1
  | timer2 => Flag.timer2

/-- The register whose write starts a timer. -/
def starter : Event → UInt8
  | timer1 => 0x5
  | timer2 => 0x9

end Event

/-- Whether the next time-out of a timer interrupts. -/
def armed (v : Via) : Event → Bool
  | .timer1 => v.armed1
  | .timer2 => v.armed2

/-- Whether the interrupt of a timer is raised. -/
def raised (v : Via) (e : Event) : Bool := anyBit v.flags e.flag

/-- Timer 1 does not run on. Timer 2 never does. -/
def OneShot (v : Via) (e : Event) : Prop :=
  e = .timer1 → anyBit v.control Control.freeRun = false

/-! ## Alarms and pulses -/

/-- The interrupt is no longer armed just where it has been raised, and nothing clears it. -/
structure Raises (e : Event) (v v' : Via) : Prop where
  armed : v'.armed e = true → v.armed e = true
  raised : v'.raised e = (v.raised e || v.armed e && !v'.armed e)

namespace Raises

variable {e : Event} {v v' v'' : Via}

/-- Neither the flag nor what it is raised by has changed. -/
theorem of_eq (armed : v'.armed e = v.armed e) (raised : v'.raised e = v.raised e) :
    Raises e v v' :=
  ⟨fun still => armed ▸ still, by rw [raised, armed, Bool.and_not_self, Bool.or_false]⟩

theorem trans (h : Raises e v v') (h' : Raises e v' v'') : Raises e v v'' where
  armed still := h.armed (h'.armed still)
  raised := by
    have first := h.armed
    have second := h'.armed
    rw [h'.raised, h.raised]
    cases h₀ : v.armed e <;> cases h₁ : v'.armed e <;> cases h₂ : v''.armed e <;> simp_all

/-- A flag that may be set with others, by whether it is the timer's own. -/
theorem raised_or (v : Via) (flag : UInt8) (fires : Bool) :
    anyBit (v.flags ||| (if fires then flag else 0)) e.flag =
      (v.raised e || fires && anyBit flag e.flag) := by
  have none : anyBit 0 e.flag = false := by cases e <;> decide
  rw [anyBit_or]
  cases fires with
  | true => rfl
  | false => exact congrArg (v.raised e || ·) none

theorem raised_or_other (v : Via) {flag : UInt8} (fires : Bool)
    (other : anyBit flag e.flag = false) :
    anyBit (v.flags ||| (if fires then flag else 0)) e.flag = v.raised e := by
  rw [raised_or, other, Bool.and_false, Bool.or_false]

theorem raised_or_self (v : Via) {flag : UInt8} (fires : Bool)
    (self : anyBit flag e.flag = true) :
    anyBit (v.flags ||| (if fires then flag else 0)) e.flag = (v.raised e || fires) := by
  rw [raised_or, self, Bool.and_true]

theorem timeOut1 (once : v.OneShot e) : Raises e v v.timeOut1 := by
  rw [timeOut1_eq]
  cases e with
  | timer1 =>
    refine ⟨fun still => ?_, ?_⟩
    · simp [Via.armed, once rfl] at still
    · simp only [Via.armed, once rfl, Bool.not_false, Bool.and_true]
      exact raised_or_self v _ (by decide)
  | timer2 => exact of_eq rfl (raised_or_other v _ (by decide))

theorem timeOut2 (e : Event) (v : Via) : Raises e v v.timeOut2 := by
  rw [timeOut2_eq]
  cases e with
  | timer1 => exact of_eq rfl (raised_or_other v _ (by decide))
  | timer2 =>
    refine ⟨nofun, ?_⟩
    simp only [Via.armed, Bool.not_false, Bool.and_true]
    exact raised_or_self v _ (by decide)

theorem expire (once : v.OneShot e) (which : Event) : Raises e v (v.expire which) := by
  cases which with
  | timer1 => exact timeOut1 once
  | timer2 => exact timeOut2 e v

/-- A pulse that ends the count of timer 2 is a time-out. -/
theorem pulse (e : Event) (v : Via) : Raises e v v.pulse := by
  have counted : Raises e v { v with counter2 := v.counter2 - 1 } :=
    of_eq (by cases e <;> rfl) rfl
  unfold Via.pulse
  split
  · exact of_eq rfl rfl
  · simp only []
    split
    · exact counted.trans (timeOut2 e _)
    · exact counted

variable [DecidableEq ε] {event : Event → ε} {others : Responder ε σ}

/-- The alarms of an advance. -/
theorem fires {limit n : Nat} {q q' : Agenda ε} {s s' : Among σ} (once : s.via.OneShot e)
    (h : Fires (beside event others) limit n q s q' s') :
    Raises e s.via s'.via ∧ s'.via.control = s.via.control := by
  refine h.keeps (P := fun _ t => Raises e s.via t.via ∧ t.via.control = s.via.control) ?_
    ⟨of_eq rfl rfl, rfl⟩
  rintro due x q t - ⟨raises, control⟩
  unfold beside
  split
  · next which _ =>
    have once' : t.via.OneShot e := fun is1 => control ▸ once is1
    exact ⟨raises.trans (expire once' which), (t.via.expire_control which).trans control⟩
  · exact ⟨raises, control⟩

end Raises

/-! ## Turns -/

/-- The interrupt is no longer armed just where the flag has risen. -/
structure Spends (e : Event) (v v' : Via) : Prop where
  armed : v'.armed e = true → v.armed e = true
  raised : v.raised e = false → v'.raised e = (v.armed e && !v'.armed e)

namespace Spends

variable {e : Event} {v v' : Via}

theorem of_raises (h : Raises e v v') : Spends e v v' :=
  ⟨h.armed, fun clear => by rw [h.raised, clear, Bool.false_or]⟩

/-- Flags were cleared at most. -/
theorem of_cleared (armed : v'.armed e = v.armed e)
    (clear : v.raised e = false → v'.raised e = false) : Spends e v v' := by
  refine ⟨fun still => armed ▸ still, fun before => ?_⟩
  rw [armed, Bool.and_not_self]
  exact clear before

theorem setCa1 (e : Event) (v : Via) (level : Bool) : Spends e v (v.setCa1 level) := by
  have other : (v.raise Flag.ca1).raised e = v.raised e :=
    Raises.raised_or_other v true (by cases e <;> decide)
  unfold Via.setCa1
  simp only []
  split
  · exact of_cleared (by cases e <;> rfl) fun clear => other.trans clear
  · exact of_cleared (by cases e <;> rfl) id

theorem setCb1 (e : Event) (v : Via) (level : Bool) : Spends e v (v.setCb1 level) := by
  have other : (v.raise Flag.cb1).raised e = v.raised e :=
    Raises.raised_or_other v true (by cases e <;> decide)
  unfold Via.setCb1
  simp only []
  split
  · exact of_cleared (by cases e <;> rfl) fun clear => other.trans clear
  · exact of_cleared (by cases e <;> rfl) id

theorem touched (e : Event) (v : Via) (turn : Turn ε σ) : Spends e v (v.touched turn) := by
  cases turn with
  | read register => exact of_cleared (by cases e <;> rfl) (anyBit_and_of_clear _)
  | drive a b => exact of_cleared (by cases e <;> rfl) id
  | ca1 level => exact setCa1 e v level
  | cb1 level => exact setCb1 e v level
  | pulse => exact of_raises (.pulse e v)
  | _ => exact of_cleared rfl id

variable [DecidableEq ε] [ToString ε] {event : Event → ε}

/-- Only the register that starts a timer arms its interrupt. -/
theorem write {clock clock' : Clock ε} {register b : UInt8} (idle : register &&& 0x0F ≠ e.starter)
    (h : v.write event clock register b = .ok (v', clock')) : Spends e v v' := by
  unfold Via.write at h
  split at h
  case h_7 at' =>
    obtain ⟨_, -, hret⟩ := bind_eq_ok.mp h
    cases hret
    cases e with
    | timer1 => exact absurd (UInt8.toNat_inj.mp at') idle
    | timer2 => exact of_cleared rfl (anyBit_and_of_clear _)
  case h_10 at' =>
    cases e with
    | timer1 =>
      unfold startTimer2 at h
      simp only [] at h
      split at h
      · cases h
        exact of_cleared rfl (anyBit_and_of_clear _)
      · obtain ⟨_, -, hret⟩ := bind_eq_ok.mp h
        cases hret
        exact of_cleared rfl (anyBit_and_of_clear _)
    | timer2 => exact absurd (UInt8.toNat_inj.mp at') idle
  case h_12 =>
    unfold writeControl at h
    simp only [] at h
    split at h
    · cases h
      exact of_cleared (by cases e <;> rfl) id
    · split at h
      · obtain ⟨_, -, hret⟩ := bind_eq_ok.mp h
        cases hret
        exact of_cleared (by cases e <;> rfl) id
      · cases h
        exact of_cleared (by cases e <;> rfl) id
  case h_1 | h_2 | h_8 | h_11 | h_14 =>
    cases h
    exact of_cleared (by cases e <;> rfl) (anyBit_and_of_clear _)
  all_goals
    cases h
    exact of_cleared (by cases e <;> rfl) id

end Spends

/-- The timer is not started in this turn, and timer 1 not told to run on. -/
def Turn.Leaves (e : Event) : Turn ε σ → Prop
  | .write register _ =>
    register &&& 0x0F ≠ e.starter ∧ (e = .timer1 → register &&& 0x0F ≠ 0xB)
  | _ => True

theorem Turn.Unwritten.leaves {turn : Turn ε σ} (h : turn.Unwritten) (e : Event) :
    turn.Leaves e := by
  cases turn with
  | write _ _ => exact h.elim
  | _ => trivial

section Turns

variable [DecidableEq ε] [ToString ε]

/-- Bits are written to the control register at one place only. -/
theorem write_control {event : Event → ε} {v v' : Via} {clock clock' : Clock ε}
    {register b : UInt8} (other : register &&& 0x0F ≠ 0xB)
    (h : v.write event clock register b = .ok (v', clock')) : v'.control = v.control := by
  unfold write at h
  split at h
  case h_7 =>
    obtain ⟨_, -, hret⟩ := bind_eq_ok.mp h
    cases hret
    rfl
  case h_10 =>
    unfold startTimer2 at h
    simp only [] at h
    split at h
    · cases h
      rfl
    · obtain ⟨_, -, hret⟩ := bind_eq_ok.mp h
      cases hret
      rfl
  case h_12 at' => exact absurd (UInt8.toNat_inj.mp at') other
  all_goals
    cases h
    rfl

omit [DecidableEq ε] [ToString ε] in
theorem touched_control (v : Via) (turn : Turn ε σ) : (v.touched turn).control = v.control := by
  cases turn with
  | ca1 level =>
    simp only [touched, setCa1]
    split <;> rfl
  | cb1 level =>
    simp only [touched, setCb1]
    split <;> rfl
  | pulse =>
    simp only [touched, pulse]
    split
    · rfl
    · split
      · exact expire_control _ .timer2
      · rfl
  | _ => rfl

variable {event : Event → ε} {others : Responder ε σ} {Good : σ → Prop}
  {x y : Clock ε × Among σ} {turn : Turn ε σ} {e : Event}

/-- A turn that leaves a one-shot timer alone spends its interrupt at most. -/
theorem Ends.spends (once : x.2.via.OneShot e) (leaves : turn.Leaves e)
    (h : Ends event others x turn y) :
    Spends e x.2.via y.2.via ∧ y.2.via.OneShot e := by
  cases h with
  | advance _ fires =>
    obtain ⟨raises, control⟩ := Raises.fires once fires
    exact ⟨.of_raises raises, fun is1 => control ▸ once is1⟩
  | write written =>
    exact ⟨.write leaves.1 written, fun is1 => write_control (leaves.2 is1) written ▸ once is1⟩
  | still _ _ _ =>
    exact ⟨.touched e _ turn, fun is1 => (touched_control x.2.via turn).symm ▸ once is1⟩

variable (event others)

/-- How often the flag of a timer rises in the course of some turns. -/
def rises (e : Event) (budget : Nat) : List (Turn ε σ) → Clock ε × Among σ → Nat
  | [], _ => 0
  | turn :: rest, x =>
    match act event others budget x turn with
    | .error _ => 0
    | .ok y => (y.2.via.raised e && !x.2.via.raised e).toNat + rises e budget rest y

variable {event others}

/-- The flag of a one-shot timer rises once where its interrupt was spent. -/
theorem rises_add_armed (steady : others.Steady Good) {budget : Nat} {turns : List (Turn ε σ)}
    (allowed : ∀ turn ∈ turns, turn.Fair event Good ∧ turn.Leaves e) (h : Sits Good x)
    (once : x.2.via.OneShot e) (clear : x.2.via.armed e = true → x.2.via.raised e = false)
    (hrun : run event others budget turns x = .ok y) :
    rises event others e budget turns x + (y.2.via.armed e).toNat = (x.2.via.armed e).toNat := by
  induction turns generalizing x with
  | nil =>
    cases hrun
    exact Nat.zero_add _
  | cons turn rest ih =>
    unfold run at hrun
    rw [List.foldlM_cons] at hrun
    obtain ⟨z, hact, hrest⟩ := bind_eq_ok.mp hrun
    obtain ⟨fair, leaves⟩ := allowed turn (.head rest)
    obtain ⟨sits, ends⟩ := act_ends steady h fair hact
    obtain ⟨spends, once'⟩ := ends.spends once leaves
    -- An interrupt that is still armed was armed before, so its flag was clear and has not risen.
    have clear' : z.2.via.armed e = true → z.2.via.raised e = false := by
      intro still
      rw [spends.raised (clear (spends.armed still)), still, Bool.not_true, Bool.and_false]
    have rose : (z.2.via.raised e && !x.2.via.raised e) =
        (x.2.via.armed e && !z.2.via.armed e) := by
      cases up : x.2.via.raised e with
      | false => rw [Bool.not_false, Bool.and_true, spends.raised up]
      | true =>
        have spent : x.2.via.armed e = false :=
          Bool.eq_false_iff.mpr fun armed => absurd (clear armed) (by simp [up])
        rw [spent, Bool.not_true, Bool.and_false, Bool.false_and]
    have later := ih (fun t mem => allowed t (.tail turn mem)) sits once' clear' hrest
    have before := spends.armed
    simp only [rises, hact, rose]
    rw [Nat.add_assoc, later]
    revert before
    cases x.2.via.armed e <;> cases z.2.via.armed e <;> decide

end Turns

end Via

end C64
