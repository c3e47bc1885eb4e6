import C64.Proofs.Via.Timing

/-!
# What a turn does

A turn that is allowed always comes to its end (`Via.act_succeeds`), and what it has done then is
one of three things (`Via.Ends`): an advance has fired what was due, a write has gone to the chip
and perhaps to its alarms, and every other turn takes no time and leaves the alarms of the chip
where they are. What each of them keeps, a run keeps (`Via.run_keeps`). To a timer an alarm that
fires is its own time-out, or leaves it alone (`Via.Rings`).
-/

namespace C64.Via

open Clock Function

variable {ε σ : Type}

/-- What a turn makes of the chip itself, if it is no advance and no write. -/
def touched (v : Via) : Turn ε σ → Via
  | .read register => v.clear (clearedByRead register)
  | .drive a b => { v with inputA := a, inputB := b }
  | .ca1 level => v.setCa1 level
  | .cb1 level => v.setCb1 level
  | .pulse => v.pulse
  | _ => v

namespace Turn

/-- A turn that takes no time and writes nothing. -/
def Still : Turn ε σ → Prop
  | .advance _ => False
  | .write _ _ => False
  | _ => True

theorem cycles_of_still {turn : Turn ε σ} (h : turn.Still) : turn.cycles = 0 := by
  cases turn with
  | advance _ => exact h.elim
  | _ => rfl

theorem total_concat (past : List (Turn ε σ)) (turn : Turn ε σ) :
    total (past ++ [turn]) = total past + turn.cycles := by
  simp [total]

end Turn

variable [DecidableEq ε] (event : Event → ε) (others : Responder ε σ)

/-- A clock in use, and others in a good state. -/
structure Sits (Good : σ → Prop) (x : Clock ε × Among σ) : Prop where
  reachable : x.1.Reachable
  good : Good x.2.rest

/-- What has happened at the end of a turn. -/
inductive Ends [ToString ε] : Clock ε × Among σ → Turn ε σ → Clock ε × Among σ → Prop
  | advance {x y : Clock ε × Among σ} {cycles n : Nat} : y.1.elapsed = x.1.elapsed + cycles →
      Fires (beside event others) y.1.elapsed n x.1.agenda x.2 y.1.agenda y.2 →
      Ends x (.advance cycles) y
  | write {x : Clock ε × Among σ} {register b : UInt8} {via : Via} {clock : Clock ε} :
      x.2.via.write event x.1 register b = .ok (via, clock) →
      Ends x (.write register b) (clock, { x.2 with via })
  | still {x : Clock ε × Among σ} {turn : Turn ε σ} {clock : Clock ε} {rest : σ} : turn.Still →
      clock.elapsed = x.1.elapsed →
      (∀ e, clock.agenda.due? (event e) = x.1.agenda.due? (event e)) →
      Ends x turn (clock, ⟨touched x.2.via turn, x.2.timeOuts, rest⟩)

/-- What an alarm on the clock is to a timer: its own time-out, that of the other timer, or
neither. -/
inductive Rings (e : Event) (due : Nat) (x : ε) (q : Agenda ε) (s : Among σ) :
    Agenda ε → Among σ → Prop
  | own {q' : Agenda ε} : x = event e → q'.due? (event e) = some (due + s.via.period e) →
      Rings e due x q s q' (s.timeOut due e)
  | other {q' : Agenda ε} {e' : Event} : e' ≠ e →
      q'.due? (event e) = Agenda.due? ((due, x) :: q) (event e) →
      Rings e due x q s q' (s.timeOut due e')
  | stranger {q' : Agenda ε} {rest : σ} :
      q'.due? (event e) = Agenda.due? ((due, x) :: q) (event e) →
      Rings e due x q s q' { s with rest }

variable {event others}

theorem rings (inj : Injective event) (apart : Apart event others) (e : Event) (due : Nat) (x : ε)
    (q : Agenda ε) (s : Among σ) :
    Rings event e due x q s ((beside event others due x s).1.foldl (Request.apply due) q)
      (beside event others due x s).2 := by
  unfold beside
  cases whose : timer? event x with
  | none =>
    refine .stranger ?_
    rw [Rtc.Spares.due?_foldl fun request mem => apart due x s.rest whose request mem e]
    exact (Agenda.due?_cons_ne (timer?_eq_none event whose e) q).symm
  | some which =>
    obtain rfl := timer?_eq_some event whose
    by_cases same : which = e
    · subst same
      exact .own rfl (Agenda.due?_set_self q _ _)
    · have other : event which ≠ event e := inj.ne same
      exact .other same
        ((Agenda.due?_set_ne q _ other).trans (Agenda.due?_cons_ne other q).symm)

/-- What every alarm keeps, by what it is to a timer, firing keeps. -/
theorem keeps_of_rings (inj : Injective event) (apart : Apart event others) (e : Event)
    {limit n : Nat} {P : Agenda ε → Among σ → Prop}
    (each : ∀ {due x q s q' s'}, due ≤ limit → P ((due, x) :: q) s →
      Rings event e due x q s q' s' → P q' s')
    {q q' : Agenda ε} {s s' : Among σ} (h : Fires (beside event others) limit n q s q' s')
    (before : P q s) : P q' s' :=
  h.keeps (fun reached holds => each reached holds (rings inj apart ..)) before

variable [ToString ε] {Good : σ → Prop} {x y : Clock ε × Among σ} {turn : Turn ε σ} {budget : Nat}

/-! ## Writes -/

variable (event) in
theorem runTimer2_eq {clock : Clock ε} (hc : clock.WellFormed) (v : Via) :
    v.runTimer2 event clock =
      .ok (clock.setAlarm (clock.now + (v.counter2.toNat + 1)) (event .timer2)) := by
  unfold runTimer2
  rw [hc.setAlarmIn_eq (count_le_headroom v.counter2) (event .timer2)]
  rfl

/-- The chip whose timer 2 was loaded with a new high byte. -/
def loaded2 (v : Via) (high : UInt8) : Via :=
  { v.clear Flag.timer2 with counter2 := wordOf high v.latch2, armed2 := true }

variable (event) in
/-- Timer 2 can be started on every clock. Where it counts pulses, no alarm is set. -/
theorem write_start2 {clock : Clock ε} (hc : clock.WellFormed) (v : Via) {register : UInt8}
    (starts : register &&& 0x0F = 0x9) (high : UInt8) :
    v.write event clock register high = .ok (v.loaded2 high,
      if v.countsPulses then clock
      else clock.setAlarm (clock.now + ((wordOf high v.latch2).toNat + 1)) (event .timer2)) := by
  have started : v.write event clock register high = v.startTimer2 event clock high := by
    unfold write
    rw [starts]
    rfl
  have run := runTimer2_eq event hc (v.loaded2 high)
  have mode : (v.loaded2 high).countsPulses = v.countsPulses := rfl
  rw [started]
  show (do return (v.loaded2 high, ← if (v.loaded2 high).countsPulses then pure clock
    else (v.loaded2 high).runTimer2 event clock)) = _
  rw [run, mode]
  cases v.countsPulses <;> rfl

variable (event) in
/-- A register can be written on every clock. -/
theorem write_succeeds {clock : Clock ε} (hc : clock.WellFormed) (v : Via) (register b : UInt8) :
    ∃ v' clock', v.write event clock register b = .ok (v', clock') := by
  by_cases first : register &&& 0x0F = 0x5
  · exact ⟨_, _, write_start1 event hc v first b⟩
  by_cases second : register &&& 0x0F = 0x9
  · exact ⟨_, _, write_start2 event hc v second b⟩
  have run := fun v : Via => runTimer2_eq event hc v
  unfold write
  split
  case h_7 at' => exact absurd (UInt8.toNat_inj.mp at') first
  case h_10 at' => exact absurd (UInt8.toNat_inj.mp at') second
  case h_12 =>
    unfold writeControl
    simp only []
    split
    · exact ⟨_, _, rfl⟩
    · split
      · rw [run]
        exact ⟨_, _, rfl⟩
      · exact ⟨_, _, rfl⟩
  all_goals exact ⟨_, _, rfl⟩

/-- A write takes no time. -/
theorem write_elapsed {v v' : Via} {clock clock' : Clock ε} {register b : UInt8}
    (h : v.write event clock register b = .ok (v', clock')) : clock'.elapsed = clock.elapsed := by
  have ran : ∀ {v : Via} {clock' : Clock ε}, v.runTimer2 event clock = .ok clock' →
      clock'.elapsed = clock.elapsed := by
    intro v clock' h
    obtain ⟨⟨due, c⟩, hset, hret⟩ := bind_eq_ok.mp h
    cases hret
    rw [setAlarmIn_ok hset]
    rfl
  unfold write at h
  split at h
  case h_7 =>
    obtain ⟨⟨due, c⟩, hset, hret⟩ := bind_eq_ok.mp h
    cases hret
    rw [setAlarmIn_ok hset]
    rfl
  case h_10 =>
    unfold startTimer2 at h
    simp only [] at h
    split at h
    · cases h
      rfl
    · obtain ⟨c, hrun, hret⟩ := bind_eq_ok.mp h
      cases hret
      exact ran hrun
  case h_12 =>
    unfold writeControl at h
    simp only [] at h
    split at h
    · cases h
      rfl
    · split at h
      · obtain ⟨c, hrun, hret⟩ := bind_eq_ok.mp h
        cases hret
        exact ran hrun
      · cases h
        rfl
  all_goals
    cases h
    rfl

/-! ## One turn -/

theorem Ends.elapsed_eq (h : Ends event others x turn y) :
    y.1.elapsed = x.1.elapsed + turn.cycles := by
  cases h with
  | advance age _ => exact age
  | write written => exact write_elapsed written
  | still still age _ =>
    rw [Turn.cycles_of_still still]
    exact age

theorem act_succeeds (steady : others.Steady Good) (h : Sits Good x)
    (fair : turn.Fair event Good) :
    ∃ enough y, ∀ budget, enough ≤ budget → act event others budget x turn = .ok y := by
  cases turn with
  | advance cycles =>
    obtain ⟨enough, clock, s, -, -, -, -, hrun⟩ :=
      advance_succeeds event steady h.reachable h.good fair
    exact ⟨enough, (clock, s), hrun⟩
  | write register b =>
    obtain ⟨v, clock, written⟩ :=
      write_succeeds event h.reachable.wellFormed x.2.via register b
    exact ⟨0, (clock, { x.2 with via := v }), fun _ _ => bind_eq_ok.mpr ⟨_, written, rfl⟩⟩
  | _ => exact ⟨0, _, fun _ _ => rfl⟩

theorem act_ends (steady : others.Steady Good) (h : Sits Good x) (fair : turn.Fair event Good)
    (hact : act event others budget x turn = .ok y) :
    Sits Good y ∧ Ends event others x turn y := by
  cases turn with
  | advance cycles =>
    obtain ⟨clock', s'⟩ := y
    have steady' := beside_steady event others steady
    unfold act at hact
    rw [serve_eq] at hact
    obtain ⟨reach, good⟩ :=
      h.reachable.advanceWithin (Responder.handler_lawful steady') h.good hact
    obtain ⟨n, age, leads⟩ :=
      Responder.leads_of_advance steady' h.reachable.wellFormed h.good hact
    exact ⟨⟨reach, good⟩, .advance age leads.fires⟩
  | write register b =>
    obtain ⟨⟨v, clock⟩, written, hret⟩ := bind_eq_ok.mp hact
    cases hret
    exact ⟨⟨write_reachable event h.reachable written, h.good⟩, .write written⟩
  | rebase =>
    cases hact
    exact ⟨⟨h.reachable.rebase, h.good⟩, .still trivial (elapsed_rebase x.1)
      fun e => congrArg (Agenda.due? · (event e)) h.reachable.wellFormed.agenda_rebase⟩
  | setAlarm due e =>
    cases hact
    refine ⟨⟨h.reachable.setAlarm e fair.1, h.good⟩, .still trivial rfl fun e' => ?_⟩
    rw [agenda_setAlarm, Agenda.due?_set_ne _ _ (fair.2 e')]
  | cancel e =>
    cases hact
    refine ⟨⟨h.reachable.cancel e, h.good⟩, .still trivial rfl fun e' => ?_⟩
    rw [agenda_cancel, Agenda.due?_cancel_ne _ (fair e')]
  | others rest =>
    cases hact
    exact ⟨⟨h.reachable, fair⟩, .still trivial rfl fun _ => rfl⟩
  | read _ | drive _ _ | ca1 _ | cb1 _ | pulse =>
    cases hact
    exact ⟨⟨h.reachable, h.good⟩, .still trivial rfl fun _ => rfl⟩

/-! ## Runs -/

/-- Turns that are allowed come to their end. -/
theorem run_total (steady : others.Steady Good) (h : Sits Good x) {turns : List (Turn ε σ)}
    (fair : ∀ turn ∈ turns, turn.Fair event Good) :
    ∃ enough y, ∀ budget, enough ≤ budget → run event others budget turns x = .ok y := by
  have each {x : Clock ε × Among σ} {turn : Turn ε σ} (h : Sits Good x)
      (fair : turn.Fair event Good) :
      ∃ enough y, Sits Good y ∧ y.1.elapsed = x.1.elapsed + turn.cycles ∧
        ∀ budget, enough ≤ budget → act event others budget x turn = .ok y := by
    obtain ⟨enough, y, hact⟩ := act_succeeds steady h fair
    obtain ⟨sits, ends⟩ := act_ends steady h fair (hact enough (Nat.le_refl enough))
    exact ⟨enough, y, sits, ends.elapsed_eq, hact⟩
  obtain ⟨enough, y, -, -, hrun⟩ := run_succeeds event others each fair h
  exact ⟨enough, y, hrun⟩

/-- What each turn keeps, with the turns so far in view, so does a run of them. -/
theorem run_keeps {P : List (Turn ε σ) → Clock ε × Among σ → Prop} {Allowed : Turn ε σ → Prop}
    (steady : others.Steady Good) (fair : ∀ {turn}, Allowed turn → turn.Fair event Good)
    (each : ∀ {past x turn y}, P past x → Allowed turn → Sits Good y →
      Ends event others x turn y → P (past ++ [turn]) y)
    {turns : List (Turn ε σ)} (allowed : ∀ turn ∈ turns, Allowed turn) {past : List (Turn ε σ)}
    (h : Sits Good x) (before : P past x) (hrun : run event others budget turns x = .ok y) :
    Sits Good y ∧ P (past ++ turns) y := by
  induction turns generalizing past x with
  | nil =>
    cases hrun
    exact ⟨h, past.append_nil.symm ▸ before⟩
  | cons turn rest ih =>
    unfold run at hrun
    rw [List.foldlM_cons] at hrun
    obtain ⟨z, hact, hrest⟩ := bind_eq_ok.mp hrun
    have may := allowed turn (.head rest)
    obtain ⟨sits, ends⟩ := act_ends steady h (fair may) hact
    rw [List.append_cons]
    exact ih (fun t mem => allowed t (.tail turn mem)) sits (each before may sits ends) hrest

/-! ## A neighbour -/

/-- Another alarm on the clock, that comes every three hundred cycles and is counted. -/
def beeper : Responder (Option Event) Nat := fun _ _ n => ([.set 300 none], n + 1)

theorem beeper_steady : beeper.Steady fun _ => True := by
  refine ⟨fun due x n _ request mem => ?_, fun _ _ _ _ => trivial⟩
  obtain rfl := List.mem_singleton.mp mem
  exact ⟨by decide, by decide⟩

theorem beeper_apart : Apart some beeper := by
  intro due x n _ request mem e
  obtain rfl := List.mem_singleton.mp mem
  exact (Option.some_ne_none e).symm

end C64.Via
