import C64.Proofs.Via.OneShot

/-!
# The count of timer 2

Timer 2 counts cycles or pulses, as bit 5 of the control register has it, and the count goes on
where it was when the one gives way to the other. In the one mode it is the distance of an alarm, in
the other a field of the chip. Told of apart from both it is a small machine (`Via.Tally`): what is
left to count, and whether its interrupt is still armed. A chip on its clock shows what this machine
says (`Via.Shows`), before a turn and behind it (`Via.Shows.step`). So the counter is the one that
was loaded, less the cycles and pulses that were counted since, and its flag rises once at most
(`Via.timer2_keeps_count`).
-/

namespace C64.Via

open Clock Function

variable {ε σ : Type}

/-! ## What is counted -/

namespace Turn

/-- What a turn makes of the control register. -/
def control (control : UInt8) : Turn ε σ → UInt8
  | .write register b => if register &&& 0x0F = 0xB then b else control
  | _ => control

/-- What timer 2 counts in a turn: cycles or pulses, by the control register. -/
def counts (control : UInt8) : Turn ε σ → Nat
  | .advance cycles => if anyBit control Control.countPulses then 0 else cycles
  | .pulse => if anyBit control Control.countPulses then 1 else 0
  | _ => 0

end Turn

/-- The cycles and pulses that timer 2 counts in the course of some turns. -/
def counted (control : UInt8) : List (Turn ε σ) → Nat
  | [] => 0
  | turn :: rest => turn.counts control + counted (turn.control control) rest

/-- What timer 2 is doing. -/
structure Tally where
  control : UInt8
  left : UInt16
  /-- Whether the next time-out interrupts. -/
  armed : Bool

namespace Tally

/-- Whether pulses are counted. -/
def pulses (t : Tally) : Bool := anyBit t.control Control.countPulses

/-- Whether there is a time-out in a turn. Cycles time out when they leave zero, and a pulse when it
reaches it. -/
def timesOut (t : Tally) : Turn ε σ → Bool
  | .advance cycles => !t.pulses && decide (t.left.toNat < cycles)
  | .pulse => t.pulses && t.left - 1 == 0
  | _ => false

/-- What timer 2 is doing behind a turn. -/
def turn (t : Tally) (x : Turn ε σ) : Tally where
  control := x.control t.control
  left := t.left - .ofNat (x.counts t.control)
  armed := t.armed && !t.timesOut x

/-- A turn in which nothing is counted leaves the timer as it is. -/
theorem turn_of_idle (t : Tally) {x : Turn ε σ} (control : x.control t.control = t.control)
    (idle : x.counts t.control = 0) : t.turn x = t := by
  have waits : t.timesOut x = false := by
    cases x with
    | advance cycles =>
      cases mode : t.pulses with
      | true => simp [timesOut, mode]
      | false =>
        have none : cycles = 0 := (if_neg (Bool.eq_false_iff.mp mode)).symm.trans idle
        simp [timesOut, none]
    | pulse =>
      have mode : t.pulses = false :=
        Bool.eq_false_iff.mpr fun mode => absurd ((if_pos mode).symm.trans idle) Nat.one_ne_zero
      simp [timesOut, mode]
    | _ => rfl
  unfold turn
  rw [control, idle, waits]
  simp

theorem left_foldl (t : Tally) (turns : List (Turn ε σ)) :
    (turns.foldl turn t).left = t.left - .ofNat (counted t.control turns) := by
  induction turns generalizing t with
  | nil => exact (UInt16.sub_zero t.left).symm
  | cons x rest ih =>
    rw [List.foldl_cons, ih, counted, UInt16.ofNat_add]
    simp only [turn, UInt16.sub_eq_add_neg, UInt16.neg_add, UInt16.add_assoc]

end Tally

/-! ## A chip in use -/

section

variable [DecidableEq ε] (event : Event → ε) (others : Responder ε σ) (Good : σ → Prop)

/-- A chip that was new at some time, on a clock without an alarm of it, and since then went through
turns and resets. -/
inductive InUse [ToString ε] : Clock ε × Among σ → Prop
  | new {clock : Clock ε} {rest : σ} : clock.Reachable →
      (∀ e, clock.isPending (event e) = false) → Good rest → InUse (clock, ⟨initial, [], rest⟩)
  | turn {x y : Clock ε × Among σ} {turn : Turn ε σ} {budget : Nat} : InUse x →
      turn.Fair event Good → act event others budget x turn = .ok y → InUse y
  | reset {x : Clock ε × Among σ} : InUse x →
      InUse ((reset event x.1).2, { x.2 with via := (reset event x.1).1 })

variable {event others Good} {x y : Clock ε × Among σ}

theorem InUse.sits [ToString ε] (steady : others.Steady Good) (h : InUse event others Good x) :
    Sits Good x := by
  induction h with
  | new reach _ good => exact ⟨reach, good⟩
  | turn _ fair hact ih => exact (act_ends steady ih fair hact).1
  | reset _ ih => exact ⟨reset_reachable event ih.reachable, ih.good⟩

/-- While timer 2 counts pulses, no alarm fires for it and none comes up. -/
theorem Scheduled.fires (inj : Injective event) (apart : Apart event others) {limit n : Nat}
    {q q' : Agenda ε} {s s' : Among σ} (h : Fires (beside event others) limit n q s q' s')
    (before : s.via.Scheduled fun e => (q.due? (event e)).isSome) :
    s'.via.Scheduled fun e => (q'.due? (event e)).isSome := by
  refine keeps_of_rings inj apart .timer2
    (P := fun q s => s.via.Scheduled fun e => (q.due? (event e)).isSome) ?_ h before
  intro due x q s q' s' _ scheduled rung
  cases rung with
  | own whose _ =>
    subst whose
    refine Scheduled.of_control (fun _ => scheduled ?_) (s.via.expire_control .timer2)
    exact congrArg Option.isSome (Agenda.due?_cons_self due _ q)
  | other _ alarm =>
    refine Scheduled.of_control (fun waits => scheduled ?_) (s.via.expire_control _)
    exact (congrArg Option.isSome alarm).symm.trans waits
  | stranger alarm =>
    exact fun waits => scheduled ((congrArg Option.isSome alarm).symm.trans waits)

theorem InUse.scheduled [ToString ε] (steady : others.Steady Good) (inj : Injective event)
    (apart : Apart event others) (h : InUse event others Good x) :
    x.2.via.Scheduled (x.1.isPending ∘ event) := by
  induction h with
  | new _ none _ => exact fun waits => absurd waits (by simp [none])
  | @turn x y turn _ before fair hact ih =>
    cases (act_ends steady (before.sits steady) fair hact).2 with
    | advance _ fires =>
      have after := Scheduled.fires inj apart fires
      simp only [isSome_agenda] at after
      exact after ih
    | write written => exact (write_scheduled event inj ih written).1
    | still _ _ alarms =>
      refine Scheduled.of_control (fun waits => ih ?_) (touched_control x.2.via turn)
      simp only [comp_apply, ← isSome_agenda] at waits ⊢
      rwa [alarms] at waits
  | @reset x _ _ => exact fun waits => absurd waits (by simp [reset_pending])

end

/-! ## What leaves timer 2 alone -/

/-- Nothing that timer 2 runs by has changed. -/
structure Spares2 (v v' : Via) : Prop where
  control : v'.control = v.control
  armed : v'.armed2 = v.armed2
  counter : v'.counter2 = v.counter2

namespace Spares2

theorem trans {v v' v'' : Via} (h : Spares2 v v') (h' : Spares2 v' v'') : Spares2 v v'' :=
  ⟨h'.control.trans h.control, h'.armed.trans h.armed, h'.counter.trans h.counter⟩

theorem expire (v : Via) {e : Event} (other : e ≠ .timer2) : Spares2 v (v.expire e) := by
  cases e with
  | timer1 =>
    rw [Via.expire, timeOut1_eq]
    exact ⟨rfl, rfl, rfl⟩
  | timer2 => exact absurd rfl other

/-- Of what is done to the chip, only a pulse that is counted is no matter of indifference. -/
theorem touched {v : Via} {turn : Turn ε σ} (idle : turn.counts v.control = 0) :
    Spares2 v (v.touched turn) := by
  cases turn with
  | ca1 level =>
    simp only [Via.touched, setCa1]
    split <;> exact ⟨rfl, rfl, rfl⟩
  | cb1 level =>
    simp only [Via.touched, setCb1]
    split <;> exact ⟨rfl, rfl, rfl⟩
  | pulse =>
    have cycles : v.countsPulses = false := by
      by_contra pulses
      simp only [Turn.counts, ite_eq_right_iff] at idle
      exact Nat.one_ne_zero (idle (Bool.not_eq_false _ ▸ pulses))
    simp only [Via.touched, Via.pulse, cycles, Bool.not_false, if_true]
    exact ⟨rfl, rfl, rfl⟩
  | _ => exact ⟨rfl, rfl, rfl⟩

theorem write [DecidableEq ε] [ToString ε] {event : Event → ε} (inj : Injective event)
    {v v' : Via} {clock clock' : Clock ε} {register b : UInt8} (idle : register &&& 0x0F ≠ 0x9)
    (other : register &&& 0x0F ≠ 0xB) (h : v.write event clock register b = .ok (v', clock')) :
    Spares2 v v' ∧ clock'.agenda.due? (event .timer2) = clock.agenda.due? (event .timer2) := by
  unfold Via.write at h
  split at h
  case h_7 =>
    obtain ⟨⟨due, c⟩, hset, hret⟩ := bind_eq_ok.mp h
    cases hret
    refine ⟨⟨rfl, rfl, rfl⟩, ?_⟩
    rw [setAlarmIn_ok hset, agenda_setAlarm]
    exact Agenda.due?_set_ne _ _ (inj.ne (by decide))
  case h_10 at' => exact absurd (UInt8.toNat_inj.mp at') idle
  case h_12 at' => exact absurd (UInt8.toNat_inj.mp at') other
  all_goals
    cases h
    exact ⟨⟨rfl, rfl, rfl⟩, rfl⟩

end Spares2

/-! ## The tally of a chip -/

section

variable [DecidableEq ε] (event : Event → ε)

/-- What a chip on its clock tells of timer 2. -/
structure Shows (t : Tally) (x : Clock ε × Among σ) : Prop where
  control : x.2.via.control = t.control
  armed : x.2.via.armed2 = t.armed
  running : t.pulses = false →
    x.1.agenda.due? (event .timer2) = some (x.1.elapsed + t.left.toNat + 1)
  held : t.pulses = true →
    x.1.agenda.due? (event .timer2) = none ∧ x.2.via.counter2 = t.left

/-- Timer 2 of the chip `v` counts cycles and was to time out at cycle `first`. So many time-outs
have come up to a cycle. -/
structure Laps (v : Via) (first limit laps : Nat) (q : Agenda ε) (s : Among σ) : Prop where
  control : s.via.control = v.control
  armed : s.via.armed2 = (v.armed2 && laps == 0)
  due : q.due? (event .timer2) = some (first + laps * 0x10000)
  past : ∀ m < laps, first + m * 0x10000 ≤ limit

variable {event} {others : Responder ε σ} {t : Tally} {x y : Clock ε × Among σ}

/-- Every alarm on the clock keeps the count of the time-outs. -/
theorem Laps.alarm {v : Via} {first limit laps due : Nat} {e : ε} {q q' : Agenda ε}
    {s s' : Among σ} (h : Laps event v first limit laps ((due, e) :: q) s) (reached : due ≤ limit)
    (rung : Rings event .timer2 due e q s q' s') :
    ∃ laps, Laps event v first limit laps q' s' := by
  cases rung with
  | own whose again =>
    subst whose
    have now : due = first + laps * 0x10000 :=
      Option.some.inj ((Agenda.due?_cons_self due _ q).symm.trans h.due)
    refine ⟨laps + 1, (s.via.expire_control .timer2).trans h.control, ?_, ?_, ?_⟩
    · exact (congrArg armed2 s.via.timeOut2_eq).trans (by simp)
    · rw [again, now, Nat.succ_mul, Nat.add_assoc]
      rfl
    · intro m earlier
      obtain before | rfl := Nat.lt_succ_iff_lt_or_eq.mp earlier
      · exact h.past m before
      · exact now ▸ reached
  | other differs alarm =>
    have spares := Spares2.expire s.via differs
    exact ⟨laps, spares.control.trans h.control, spares.armed.trans h.armed,
      alarm.trans h.due, h.past⟩
  | stranger alarm => exact ⟨laps, h.control, h.armed, alarm.trans h.due, h.past⟩

namespace Shows

/-- What leaves timer 2 and its alarm alone leaves the tally alone. -/
theorem spared (h : Shows event t x) (chip : Spares2 x.2.via y.2.via)
    (age : y.1.elapsed = x.1.elapsed)
    (alarm : y.1.agenda.due? (event .timer2) = x.1.agenda.due? (event .timer2)) :
    Shows event t y where
  control := chip.control.trans h.control
  armed := chip.armed.trans h.armed
  running cycles := by rw [alarm, age, h.running cycles]
  held pulses := by
    rw [alarm, chip.counter]
    exact h.held pulses

/-- Timer 2 shows what is left to count. -/
theorem counter (h : Shows event t x) : x.2.via.timer2 event x.1 = t.left := by
  cases mode : t.pulses with
  | false =>
    refine timer2_running event _ ((cyclesUntil?_of_agenda (h.running mode)).trans ?_)
    congr 1
    omega
  | true =>
    obtain ⟨none, held⟩ := h.held mode
    have waits : x.1.cyclesUntil? (event .timer2) = Option.none := by
      rw [due?_agenda, Option.map_eq_none_iff] at none
      rw [cyclesUntil?, none]
      rfl
    unfold timer2
    rw [waits]
    exact held

/-- In an advance cycles are counted, and the counter goes on through zero. -/
theorem advance_running (h : Shows event t x) (mode : t.pulses = false) (inj : Injective event)
    (apart : Apart event others) (reach : y.1.Reachable) {cycles n : Nat}
    (age : y.1.elapsed = x.1.elapsed + cycles)
    (fires : Fires (beside event others) y.1.elapsed n x.1.agenda x.2 y.1.agenda y.2) :
    Shows event (t.turn (.advance cycles : Turn ε σ)) y := by
  have counts : (.advance cycles : Turn ε σ).counts t.control = cycles :=
    if_neg (Bool.eq_false_iff.mp mode)
  obtain ⟨laps, run⟩ := keeps_of_rings inj apart .timer2
    (P := fun q s => ∃ laps,
      Laps event x.2.via (x.1.elapsed + t.left.toNat + 1) y.1.elapsed laps q s)
    (fun reached ⟨_, laps⟩ rung => laps.alarm reached rung) fires
    ⟨0, rfl, by simp, h.running mode, nofun⟩
  have ahead := Rtc.lt_due?_of_head reach.wellFormed.agenda_sorted fires.none_due run.due
  have small := t.left.toNat_lt
  have near : t.left.toNat + laps * 0x10000 < cycles + 0x10000 := by
    cases laps with
    | zero => omega
    | succ m =>
      have := run.past m (by omega)
      omega
  have left : (t.turn (.advance cycles : Turn ε σ)).left.toNat =
      t.left.toNat + laps * 0x10000 - cycles := by
    simp only [Tally.turn, counts]
    exact toNat_sub_ofNat laps (by omega) near
  refine ⟨run.control.trans h.control, ?_, fun _ => ?_, fun pulses => ?_⟩
  · have passed : (laps == 0) = !decide (t.left.toNat < cycles) := by
      rw [Bool.eq_iff_iff]
      simp only [beq_iff_eq, Bool.not_eq_true', decide_eq_false_iff_not]
      omega
    rw [run.armed, h.armed, passed]
    simp [Tally.turn, Tally.timesOut, mode]
  · rw [run.due, left, age]
    congr 1
    omega
  · exact absurd pulses (Bool.eq_false_iff.mp mode)

/-- While pulses are counted, no cycles are. -/
theorem advance_held (h : Shows event t x) (mode : t.pulses = true) (inj : Injective event)
    (apart : Apart event others) {cycles n : Nat}
    (fires : Fires (beside event others) y.1.elapsed n x.1.agenda x.2 y.1.agenda y.2) :
    Shows event (t.turn (.advance cycles : Turn ε σ)) y := by
  have same : t.turn (.advance cycles : Turn ε σ) = t := t.turn_of_idle rfl (if_pos mode)
  obtain ⟨none, held⟩ := h.held mode
  have kept : Spares2 x.2.via y.2.via ∧ y.1.agenda.due? (event .timer2) = Option.none := by
    refine keeps_of_rings inj apart .timer2
      (P := fun q s => Spares2 x.2.via s.via ∧ q.due? (event .timer2) = Option.none) ?_ fires
      ⟨⟨rfl, rfl, rfl⟩, none⟩
    rintro due e q s q' s' - ⟨spares, none⟩ rung
    cases rung with
    | own whose _ =>
      subst whose
      exact absurd ((Agenda.due?_cons_self due _ q).symm.trans none) nofun
    | other differs alarm => exact ⟨spares.trans (.expire s.via differs), alarm.trans none⟩
    | stranger alarm => exact ⟨spares, alarm.trans none⟩
  obtain ⟨spares, still⟩ := kept
  rw [same]
  refine ⟨spares.control.trans h.control, spares.armed.trans h.armed, fun cycles => ?_,
    fun _ => ⟨still, spares.counter.trans held⟩⟩
  exact absurd mode (Bool.eq_false_iff.mp cycles)

/-- The control register turns the alarm into a count, and the other way round. -/
theorem writeControl [ToString ε] (h : Shows event t x) {b : UInt8} {v : Via}
    {clock : Clock ε} (written : x.2.via.writeControl event x.1 b = .ok (v, clock)) :
    Shows event { t with control := b } (clock, { x.2 with via := v }) := by
  have was : x.2.via.countsPulses = t.pulses := congrArg (anyBit · Control.countPulses) h.control
  unfold Via.writeControl at written
  simp only [was] at written
  split at written
  · -- From now on pulses are counted, from what the alarm had left.
    next now =>
    cases written
    rw [Bool.and_eq_true, Bool.not_eq_true'] at now
    refine ⟨rfl, h.armed, fun cycles => absurd now.1 (Bool.eq_false_iff.mp cycles), fun _ => ?_⟩
    exact ⟨by rw [agenda_cancel, Agenda.due?_cancel_self], h.counter⟩
  · next stays =>
    split at written
    · -- From now on cycles are counted, from where the pulses left off.
      next now =>
      obtain ⟨clock', hrun, hret⟩ := bind_eq_ok.mp written
      obtain ⟨⟨due, clock''⟩, hset, hret'⟩ := bind_eq_ok.mp hrun
      cases hret
      cases hret'
      rw [Bool.and_eq_true, Bool.not_eq_true'] at now
      refine ⟨rfl, h.armed, fun _ => ?_, fun pulses => absurd pulses (Bool.eq_false_iff.mp now.1)⟩
      rw [setAlarmIn_ok hset, agenda_setAlarm, Agenda.due?_set_self, (h.held now.2).2]
      exact congrArg some (Nat.add_assoc _ _ _).symm
    · next stays' =>
      cases written
      have same : anyBit b Control.countPulses = t.pulses := by
        cases was : t.pulses <;> cases now : anyBit b Control.countPulses <;> simp_all
      exact ⟨rfl, h.armed, fun cycles => h.running (same.symm.trans cycles),
        fun pulses => h.held (same.symm.trans pulses)⟩

/-- A pulse is counted, and times out where it is the last one. -/
theorem pulse (h : Shows event t x) (mode : t.pulses = true)
    (chip : y.2.via = x.2.via.pulse)
    (alarm : y.1.agenda.due? (event .timer2) = x.1.agenda.due? (event .timer2)) :
    Shows event (t.turn (.pulse : Turn ε σ)) y := by
  obtain ⟨none, held⟩ := h.held mode
  have was : x.2.via.countsPulses = true :=
    (congrArg (anyBit · Control.countPulses) h.control).trans mode
  have counts : (.pulse : Turn ε σ).counts t.control = 1 := if_pos mode
  have pulsed : x.2.via.pulse.counter2 = t.left - 1 ∧
      x.2.via.pulse.armed2 = (t.armed && !(t.left - 1 == 0)) := by
    unfold Via.pulse
    rw [was, held]
    simp only [Bool.not_true, Bool.false_eq_true, if_false]
    by_cases last : t.left - 1 = 0
    · rw [if_pos last, timeOut2_eq, last]
      simp
    · rw [if_neg last]
      simp [last, h.armed]
  have control := touched_control (ε := ε) (σ := σ) x.2.via .pulse
  refine ⟨?_, ?_, fun cycles => absurd mode (Bool.eq_false_iff.mp cycles), fun _ => ⟨?_, ?_⟩⟩
  · rw [chip]
    exact control.trans h.control
  · rw [chip, pulsed.2]
    simp only [Tally.turn, Tally.timesOut, mode, Bool.true_and]
  · exact alarm.trans none
  · rw [chip, pulsed.1]
    simp only [Tally.turn, counts]
    rfl

variable {turn : Turn ε σ} {Good : σ → Prop}

/-- What a turn leaves of the tally, unless it starts the timer anew. -/
theorem step [ToString ε] (h : Shows event t x) (inj : Injective event) (apart : Apart event others)
    (leaves : turn.Leaves .timer2) (sits : Sits Good y)
    (ends : Ends event others x turn y) : Shows event (t.turn turn) y := by
  cases ends with
  | advance age fires =>
    cases mode : t.pulses with
    | false => exact h.advance_running mode inj apart sits.reachable age fires
    | true => exact h.advance_held mode inj apart fires
  | @write register b _ _ written =>
    by_cases control : register &&& 0x0F = 0xB
    · have wrote : x.2.via.write event x.1 register b = x.2.via.writeControl event x.1 b := by
        unfold Via.write
        rw [control]
        rfl
      have same : t.turn (.write register b : Turn ε σ) = { t with control := b } := by
        simp [Tally.turn, Turn.control, Turn.counts, Tally.timesOut, control]
      rw [same]
      exact h.writeControl (wrote ▸ written)
    · obtain ⟨spares, alarm⟩ := Spares2.write inj leaves.1 control written
      rw [t.turn_of_idle (x := .write register b) (if_neg control) rfl]
      exact h.spared spares (write_elapsed written) alarm
  | still still age alarms =>
    by_cases counted : turn = .pulse ∧ t.pulses = true
    · obtain ⟨rfl, mode⟩ := counted
      exact h.pulse mode rfl (alarms .timer2)
    · have idle : turn.counts t.control = 0 := by
        cases turn with
        | advance _ => exact still.elim
        | pulse => exact if_neg fun mode => counted ⟨rfl, mode⟩
        | _ => rfl
      have control : turn.control t.control = t.control := by
        cases turn with
        | write _ _ => exact still.elim
        | _ => rfl
      rw [t.turn_of_idle control idle]
      exact h.spared (.touched (h.control ▸ idle)) age (alarms .timer2)

/-- What some turns leave of the tally. -/
theorem run [ToString ε] (h : Shows event t x) (inj : Injective event) (apart : Apart event others)
    (steady : others.Steady Good) {turns : List (Turn ε σ)}
    (allowed : ∀ turn ∈ turns, turn.Fair event Good ∧ turn.Leaves .timer2) (sits : Sits Good x)
    {budget : Nat} (hrun : Via.run event others budget turns x = .ok y) :
    Shows event (turns.foldl Tally.turn t) y := by
  let P (past : List (Turn ε σ)) (x : Clock ε × Among σ) : Prop :=
    Shows event (past.foldl Tally.turn t) x
  have begins : P [] x := h
  refine (run_keeps (P := P) steady (fun allowed => allowed.1)
    (fun shows' allowed sits ends => ?_) allowed sits begins hrun).2
  show Shows event _ _
  rw [List.foldl_append]
  exact shows'.step inj apart allowed.2 sits ends

end Shows

/-! ## Starting timer 2 -/

/-- What timer 2 is doing behind a write to its high byte. -/
def started2 (v : Via) (high : UInt8) : Tally := ⟨v.control, wordOf high v.latch2, true⟩

/-- Timer 2 can be started at any time, whatever it counts. -/
theorem InUse.start2 [ToString ε] {clock : Clock ε} {s : Among σ}
    (h : InUse event others Good (clock, s)) (steady : others.Steady Good) (inj : Injective event)
    (apart : Apart event others) {register : UInt8} (starts : register &&& 0x0F = 0x9)
    (high : UInt8) :
    ∃ clock', s.via.write event clock register high = .ok (s.via.loaded2 high, clock') ∧
      Sits Good (clock', { s with via := s.via.loaded2 high }) ∧
      Shows event (s.via.started2 high) (clock', { s with via := s.via.loaded2 high }) := by
  obtain ⟨reach, good⟩ := h.sits steady
  have written := write_start2 event reach.wellFormed s.via starts high
  refine ⟨_, written, ⟨write_reachable event reach written, good⟩, rfl, rfl, ?_, ?_⟩
  · intro cycles
    have mode : s.via.countsPulses = false := cycles
    simp only [mode, Bool.false_eq_true, if_false]
    rw [agenda_setAlarm, Agenda.due?_set_self]
    refine congrArg some ?_
    show clock.base + (clock.now + (_ + 1)) = clock.base + clock.now + _ + 1
    rw [← Nat.add_assoc, ← Nat.add_assoc]
    rfl
  · intro pulses
    have mode : s.via.countsPulses = true := pulses
    simp only [mode, if_true]
    refine ⟨?_, rfl⟩
    -- An alarm would have been set while cycles were counted.
    have none : (clock.agenda.due? (event .timer2)).isSome = false := by
      rw [isSome_agenda]
      refine Bool.eq_false_iff.mpr fun waits => ?_
      exact absurd mode (Bool.eq_false_iff.mp (h.scheduled steady inj apart waits))
    rwa [Option.isSome_eq_false_iff, Option.isNone_iff_eq_none] at none

/-- Timer 2 was started on a chip in use, and since then not again. Whatever it was told to count in
turn, its counter is the one it was loaded with, less the cycles that passed while it counted cycles
and the pulses that came while it counted pulses. Its flag rises once at most, and no turn goes
wrong. -/
theorem timer2_keeps_count [ToString ε] (inj : Injective event) (steady : others.Steady Good)
    (apart : Apart event others) {clock : Clock ε} {s : Among σ}
    (used : InUse event others Good (clock, s)) {register : UInt8}
    (starts : register &&& 0x0F = 0x9) (high : UInt8) :
    ∃ v clock', s.via.write event clock register high = .ok (v, clock') ∧
      ∀ turns : List (Turn ε σ), (∀ turn ∈ turns, turn.Fair event Good ∧ turn.Leaves .timer2) →
        ∃ enough now s',
          (∀ budget, enough ≤ budget →
            Via.run event others budget turns (clock', { s with via := v }) = .ok (now, s') ∧
            rises event others .timer2 budget turns (clock', { s with via := v }) ≤ 1) ∧
          s'.via.timer2 event now =
            wordOf high s.via.latch2 - .ofNat (counted s.via.control turns) := by
  obtain ⟨clock', written, sits, shows'⟩ := used.start2 steady inj apart starts high
  refine ⟨_, clock', written, fun turns allowed => ?_⟩
  obtain ⟨enough, ⟨now, s'⟩, hrun⟩ := run_total steady sits fun turn mem => (allowed turn mem).1
  refine ⟨enough, now, s', fun budget more => ⟨hrun budget more, ?_⟩, ?_⟩
  · have risen := rises_add_armed steady allowed sits nofun
      (fun _ => anyBit_withBits_self s.via.flags false (by decide)) (hrun budget more)
    exact Nat.le_trans (Nat.le_of_add_right_le risen.le) (Bool.toNat_le _)
  · have tallied := shows'.run inj apart steady allowed sits (hrun enough (Nat.le_refl enough))
    rw [tallied.counter, Tally.left_foldl]
    rfl

/-- A count of 255, at the top of a clock: 250 cycles, then three pulses and four cycles that are
not counted, then ten more cycles. -/
theorem timer2_keeps_count_modes :
    let clock : Clock (Option Event) := ⟨Cycle.clockMax, 0, 0, 0, []⟩
    let turns : List (Turn (Option Event) Nat) :=
      [.advance 250, .write 0xB 0x20, .pulse, .advance 4, .pulse, .rebase, .pulse, .write 0xB 0,
        .pulse, .advance 10]
    Injective (some : Event → Option Event) ∧ beeper.Steady (fun _ => True) ∧
      Apart some beeper ∧ InUse some beeper (fun _ => True) (clock, ⟨initial, [], 0⟩) ∧
      (∀ turn ∈ turns, turn.Fair some (fun _ => True) ∧ turn.Leaves .timer2) ∧
      ∃ v clock', initial.write some clock 0x9 0 = .ok (v, clock') ∧ ∃ enough now s,
        (∀ budget, enough ≤ budget →
          Via.run some beeper budget turns (clock', ⟨v, [], 0⟩) = .ok (now, s) ∧
          rises some beeper .timer2 budget turns (clock', ⟨v, [], 0⟩) ≤ 1) ∧
        s.via.timer2 some now = 0xFFF8 := by
  intro clock turns
  have inj : Injective (some : Event → Option Event) := fun _ _ => Option.some.inj
  have used : InUse some beeper (fun _ => True) (clock, ⟨initial, [], 0⟩) :=
    .new (.start (show start Cycle.clockMax = .ok clock from rfl)) (fun _ => rfl) trivial
  have allowed : ∀ turn ∈ turns, turn.Fair some (fun _ => True) ∧ turn.Leaves .timer2 := by
    intro turn mem
    simp only [turns, List.mem_cons, List.not_mem_nil, or_false] at mem
    obtain rfl | rfl | rfl | rfl | rfl | rfl | rfl | rfl | rfl | rfl := mem
    · exact ⟨show 250 ≤ Cycle.clockMax by decide, trivial⟩
    · exact ⟨trivial, by decide, nofun⟩
    · exact ⟨trivial, trivial⟩
    · exact ⟨show 4 ≤ Cycle.clockMax by decide, trivial⟩
    · exact ⟨trivial, trivial⟩
    · exact ⟨trivial, trivial⟩
    · exact ⟨trivial, trivial⟩
    · exact ⟨trivial, by decide, nofun⟩
    · exact ⟨trivial, trivial⟩
    · exact ⟨show 10 ≤ Cycle.clockMax by decide, trivial⟩
  refine ⟨inj, beeper_steady, beeper_apart, used, allowed, ?_⟩
  obtain ⟨v, clock', written, ran⟩ :=
    timer2_keeps_count inj beeper_steady beeper_apart used (by decide : (9 : UInt8) &&& 15 = 9) 0
  obtain ⟨enough, now, s, hrun, counter⟩ := ran turns allowed
  exact ⟨v, clock', written, enough, now, s, hrun, counter.trans (by decide)⟩

end

end C64.Via
