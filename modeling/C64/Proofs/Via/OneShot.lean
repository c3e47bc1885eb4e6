import C64.Proofs.Via.FreeRun
import C64.Proofs.Via.Rising

/-!
# One time-out that interrupts

A timer that is started to interrupt once goes on to count for ever, and its alarm comes back for
ever. Its time-outs are counted as those of a timer that runs on (`Via.RunsOnce`), but only the
first of them finds the interrupt armed. So the flag rises in the cycle behind the end of the count
and in no other, whatever else happens to the chip and however often the flag is read and cleared
(`Via.one_shot_rises_once`).
-/

namespace C64.Via

open Clock Function

variable {ε σ : Type}

/-! ## Starting a timer -/

/-- The timer counts cycles and interrupts once. -/
def TimesOnce (v : Via) : Event → Prop
  | .timer1 => anyBit v.control Control.freeRun = false
  | .timer2 => v.countsPulses = false

theorem TimesOnce.oneShot {v : Via} {e : Event} (h : v.TimesOnce e) : v.OneShot e := by
  rintro rfl
  exact h

/-- What a timer counts from when its high byte is written. -/
def count (v : Via) (high : UInt8) : Event → UInt16
  | .timer1 => wordOf high (lowByte v.latch1)
  | .timer2 => wordOf high v.latch2

/-- The chip with a timer started. -/
def loaded (v : Via) (high : UInt8) : Event → Via
  | .timer1 => v.loaded1 high
  | .timer2 => v.loaded2 high

theorem TimesOnce.loaded {v : Via} {e : Event} (once : v.TimesOnce e) (high : UInt8) :
    (v.loaded high e).TimesOnce e := by
  cases e <;> exact once

theorem armed_loaded (v : Via) (high : UInt8) (e : Event) : (v.loaded high e).armed e = true := by
  cases e <;> rfl

theorem raised_loaded (v : Via) (high : UInt8) (e : Event) :
    (v.loaded high e).raised e = false := by
  cases e <;> exact anyBit_withBits_self v.flags false (by decide)

theorem write_start [DecidableEq ε] [ToString ε] (event : Event → ε) {clock : Clock ε}
    (hc : clock.WellFormed) {v : Via} {e : Event} (once : v.TimesOnce e) {register : UInt8}
    (starts : register &&& 0x0F = e.starter) (high : UInt8) :
    v.write event clock register high = .ok (v.loaded high e,
      clock.setAlarm (clock.now + ((v.count high e).toNat + 1)) (event e)) := by
  cases e with
  | timer1 => exact write_start1 event hc v starts high
  | timer2 =>
    have counts : v.countsPulses = false := once
    rw [write_start2 event hc v starts high, counts]
    rfl

/-! ## What leaves a timer alone -/

/-- Nothing that the timer goes by has changed. -/
structure Spares (e : Event) (v v' : Via) : Prop where
  control : v'.control = v.control
  period : v'.period e = v.period e
  armed : v'.armed e = v.armed e
  output : e = .timer1 → v'.output1 = v.output1

namespace Spares

variable {e : Event}

theorem expire (v : Via) {which : Event} (other : which ≠ e) : Spares e v (v.expire which) where
  control := v.expire_control which
  period := v.period_expire which e
  armed := by
    cases which with
    | timer1 =>
      rw [Via.expire, timeOut1_eq]
      cases e with
      | timer1 => exact absurd rfl other
      | timer2 => rfl
    | timer2 =>
      rw [Via.expire, timeOut2_eq]
      cases e with
      | timer1 => rfl
      | timer2 => exact absurd rfl other
  output := by
    rintro rfl
    cases which with
    | timer1 => exact absurd rfl other
    | timer2 => rw [Via.expire, timeOut2_eq]

theorem touched {v : Via} (once : v.TimesOnce e) (turn : Turn ε σ) :
    Spares e v (v.touched turn) := by
  have same : ∀ v' : Via, v'.control = v.control → v'.latch1 = v.latch1 → v'.armed1 = v.armed1 →
      v'.armed2 = v.armed2 → v'.output1 = v.output1 → Spares e v v' := by
    intro v' control latch armed₁ armed₂ output
    refine ⟨control, ?_, ?_, fun _ => output⟩
    · cases e with
      | timer1 => exact congrArg (·.toNat + 2) latch
      | timer2 => rfl
    · cases e with
      | timer1 => exact armed₁
      | timer2 => exact armed₂
  cases turn with
  | ca1 level =>
    simp only [Via.touched, setCa1]
    split <;> exact same _ rfl rfl rfl rfl rfl
  | cb1 level =>
    simp only [Via.touched, setCb1]
    split <;> exact same _ rfl rfl rfl rfl rfl
  | pulse =>
    cases e with
    | timer1 =>
      obtain ⟨latch, control, armed, output, -⟩ := Spares1.pulse v
      exact ⟨control, congrArg (·.toNat + 2) latch, armed, fun _ => output⟩
    | timer2 =>
      -- The timer counts cycles, so the pulse is not counted.
      have counts : v.countsPulses = false := once
      simp only [Via.touched, Via.pulse, counts, Bool.not_false, if_true]
      exact same _ rfl rfl rfl rfl rfl
  | _ => exact same _ rfl rfl rfl rfl rfl

end Spares

/-! ## The time-outs so far -/

section

variable [DecidableEq ε] (event : Event → ε)

/-- The chip `v` had its timer started at cycle `start` and has been left alone: the time-outs there
were up to a cycle, and the one that the alarm waits for. Only the first found the interrupt
armed. -/
structure RunsOnce (e : Event) (v : Via) (start count limit : Nat) (q : Agenda ε) (s : Among σ) :
    Prop where
  control : s.via.control = v.control
  period : s.via.period e = v.period e
  armed : s.via.armed e = (s.timeOutsOf e).isEmpty
  due : q.due? (event e) = some (start + count + 1 + (s.timeOutsOf e).length * v.period e)
  past : ∀ m < (s.timeOutsOf e).length, start + count + 1 + m * v.period e ≤ limit
  first : ∀ t ∈ (s.timeOutsOf e).head?, t.cycle = start + count + 1 ∧ t.chip.raised e = true
  output : e = .timer1 → anyBit v.control Control.timerOutput = true →
    s.via.output1 = !s.via.armed e

namespace RunsOnce

variable {event} {e : Event} {v : Via} {start count limit : Nat} {q q' : Agenda ε} {s s' : Among σ}

theorem timesOnce (h : RunsOnce event e v start count limit q s) (once : v.TimesOnce e) :
    s.via.TimesOnce e := by
  cases e with
  | timer1 =>
    unfold TimesOnce
    rw [h.control]
    exact once
  | timer2 =>
    unfold TimesOnce countsPulses
    rw [h.control]
    exact once

/-- What leaves the timer and its alarm alone leaves the count of its time-outs alone. -/
theorem spared (h : RunsOnce event e v start count limit q s) (chip : Spares e s.via s'.via)
    (notes : s'.timeOutsOf e = s.timeOutsOf e) (alarm : q'.due? (event e) = q.due? (event e)) :
    RunsOnce event e v start count limit q' s' where
  control := chip.control.trans h.control
  period := chip.period.trans h.period
  armed := by rw [chip.armed, h.armed, notes]
  due := by rw [alarm, h.due, notes]
  past := notes ▸ h.past
  first := notes ▸ h.first
  output is1 drives := by rw [chip.output is1, h.output is1 drives, chip.armed]

/-- A time-out of the timer is the next one of the count. -/
theorem timeOut (h : RunsOnce event e v start count limit q s) (once : v.TimesOnce e)
    {cycle : Nat} (now : q.due? (event e) = some cycle) (reached : cycle ≤ limit)
    (alarm : q'.due? (event e) = some (cycle + v.period e)) :
    RunsOnce event e v start count limit q' (s.timeOut cycle e) := by
  have at' : cycle = start + count + 1 + (s.timeOutsOf e).length * v.period e :=
    Option.some.inj (now.symm.trans h.due)
  have notes := s.timeOutsOf_timeOut cycle e
  have length : ((s.timeOut cycle e).timeOutsOf e).length = (s.timeOutsOf e).length + 1 := by
    rw [notes, List.length_append, List.length_singleton]
  have raises := Raises.expire (h.timesOnce once).oneShot e
  have spent : (s.via.expire e).armed e = false := by
    cases e with
    | timer1 =>
      have stops : anyBit s.via.control Control.freeRun = false := h.timesOnce once
      exact (congrArg armed1 s.via.timeOut1_eq).trans stops
    | timer2 => exact congrArg armed2 s.via.timeOut2_eq
  refine ⟨?_, ?_, ?_, ?_, ?_, ?_, ?_⟩
  · exact (s.via.expire_control e).trans h.control
  · exact (s.via.period_expire e e).trans h.period
  · show (s.via.expire e).armed e = _
    rw [spent, notes]
    simp
  · rw [alarm, length, at', Nat.succ_mul, Nat.add_assoc _ _ (v.period e)]
  · intro m earlier
    rw [length] at earlier
    obtain before | rfl := Nat.lt_succ_iff_lt_or_eq.mp earlier
    · exact h.past m before
    · exact at' ▸ reached
  · intro t head
    rw [notes] at head
    cases none : s.timeOutsOf e with
    | nil =>
      have fresh : s.via.armed e = true := by
        rw [h.armed, none]
        rfl
      rw [none] at head
      obtain rfl := Option.some.inj head
      refine ⟨by rw [at', none]; simp, ?_⟩
      show (s.via.expire e).raised e = true
      rw [raises.raised, fresh, spent, Bool.not_false, Bool.and_true, Bool.or_true]
    | cons t' rest =>
      rw [none] at head
      exact h.first t (by rw [none]; exact head)
  · rintro rfl drives
    have stops : anyBit s.via.control Control.freeRun = false := h.timesOnce once
    have drives' : anyBit s.via.control Control.timerOutput = true := h.control ▸ drives
    have old : s.via.output1 = !s.via.armed1 := h.output rfl drives
    show s.via.timeOut1.output1 = !s.via.timeOut1.armed1
    rw [timeOut1_eq, stops, drives', old]
    cases s.via.armed1 <;> rfl

/-- Every alarm on the clock keeps the count. -/
theorem alarm {x : ε} {due : Nat} {rest : Agenda ε}
    (h : RunsOnce event e v start count limit ((due, x) :: rest) s) (once : v.TimesOnce e)
    (reached : due ≤ limit) (rung : Rings event e due x rest s q' s') :
    RunsOnce event e v start count limit q' s' := by
  cases rung with
  | own whose again =>
    subst whose
    refine h.timeOut once (Agenda.due?_cons_self due _ rest) reached ?_
    rw [again, h.period]
  | other differs alarm =>
    exact h.spared (.expire s.via differs) (s.timeOutsOf_timeOut_ne due differs) alarm
  | stranger alarm => exact h.spared ⟨rfl, rfl, rfl, fun _ => rfl⟩ rfl alarm

/-- The first of the time-outs is behind the end of the count. -/
theorem isEmpty_iff (h : RunsOnce event e v start count limit q s)
    (ahead : limit < start + count + 1 + (s.timeOutsOf e).length * v.period e) :
    (s.timeOutsOf e).isEmpty = true ↔ limit < start + count + 1 := by
  rw [List.isEmpty_iff_length_eq_zero]
  refine ⟨fun none => ?_, fun early => ?_⟩
  · rwa [none, Nat.zero_mul] at ahead
  · refine Nat.eq_zero_of_not_pos fun some => ?_
    have := h.past 0 some
    omega

end RunsOnce

end

/-! ## Turns -/

/-- Timer 2 shows what it counts while its alarm is one cycle further away. -/
theorem timer2_running [DecidableEq ε] (event : Event → ε) (v : Via) {clock : Clock ε}
    {left : UInt16} (running : clock.cyclesUntil? (event .timer2) = some (left.toNat + 1)) :
    v.timer2 event clock = left := by
  have small := left.toNat_lt
  unfold timer2
  rw [running]
  simp only []
  rw [Nat.add_sub_cancel, Nat.min_eq_left (by omega)]
  exact UInt16.ofNat_toNat

/-- What is left of a count, before it ran through zero so many times. -/
theorem toNat_sub_ofNat {count : UInt16} {cycles : Nat} (laps : Nat)
    (counted : cycles ≤ count.toNat + laps * 0x10000)
    (within : count.toNat + laps * 0x10000 < cycles + 0x10000) :
    (count - .ofNat cycles).toNat = count.toNat + laps * 0x10000 - cycles := by
  have small := count.toNat_lt
  rw [UInt16.toNat_sub, UInt16.toNat_ofNat']
  omega

section Turns

variable [DecidableEq ε] {event : Event → ε} {others : Responder ε σ}

/-- A clock and a chip on it whose timer was started at cycle `start` and left alone in some turns
since. -/
structure RanOnce (event : Event → ε) (e : Event) (v : Via) (start count : Nat)
    (past : List (Turn ε σ)) (x : Clock ε × Among σ) : Prop where
  age : x.1.elapsed = start + Turn.total past
  runs : RunsOnce event e v start count x.1.elapsed x.1.agenda x.2
  ahead : x.1.elapsed < start + count + 1 + (x.2.timeOutsOf e).length * v.period e

namespace RanOnce

variable {e : Event} {v : Via} {start count : Nat} {past : List (Turn ε σ)}
  {x y : Clock ε × Among σ} {turn : Turn ε σ} {Good : σ → Prop}

theorem step [ToString ε] (h : RanOnce event e v start count past x) (once : v.TimesOnce e)
    (inj : Injective event) (apart : Apart event others) (unwritten : turn.Unwritten)
    (sits : Sits Good y) (ends : Ends event others x turn y) :
    RanOnce event e v start count (past ++ [turn]) y := by
  have age : y.1.elapsed = start + Turn.total (past ++ [turn]) := by
    rw [ends.elapsed_eq, h.age, Turn.total_concat, Nat.add_assoc]
  cases ends with
  | advance later fires =>
    have runs : RunsOnce event e v start count y.1.elapsed y.1.agenda y.2 := by
      refine keeps_of_rings inj apart e (fun reached runs => runs.alarm once reached) fires ?_
      exact { h.runs with past := fun m lt => Nat.le_trans (h.runs.past m lt) (by omega) }
    exact ⟨age, runs, Rtc.lt_due?_of_head sits.reachable.wellFormed.agenda_sorted fires.none_due
      runs.due⟩
  | write _ => exact unwritten.elim
  | still _ same alarms =>
    have chip := Spares.touched (h.runs.timesOnce once) turn
    refine ⟨age, ?_, same ▸ h.ahead⟩
    rw [same]
    exact h.runs.spared chip rfl (alarms e)

/-- The count begins where the timer is started. -/
theorem load {clock : Clock ε} (v : Via) (high : UInt8) (e : Event) (rest : σ) :
    RanOnce event e (v.loaded high e) clock.elapsed (v.count high e).toNat []
      (clock.setAlarm (clock.now + ((v.count high e).toNat + 1)) (event e),
        ⟨v.loaded high e, [], rest⟩) := by
  refine ⟨rfl, ⟨rfl, rfl, ?_, ?_, nofun, nofun, ?_⟩, ?_⟩
  · cases e <;> rfl
  · rw [agenda_setAlarm, Agenda.due?_set_self]
    show some (clock.base + _) = some (clock.base + clock.now + _ + 1 + 0 * _)
    rw [Nat.zero_mul]
    congr 1
    omega
  · rintro rfl -
    rfl
  · show clock.base + clock.now < clock.base + clock.now + _ + 1 + 0 * _
    omega

/-- The timer has interrupted once the cycles that passed are more than the count. -/
theorem passed_iff (h : RanOnce event e v start count past x) :
    x.2.timeOutsOf e ≠ [] ↔ count + 1 ≤ Turn.total past := by
  have first := h.runs.isEmpty_iff h.ahead
  rw [h.age, List.isEmpty_iff] at first
  rw [ne_eq, first]
  omega

/-- Up to then its interrupt is armed. -/
theorem armed_eq (h : RanOnce event e v start count past x) :
    x.2.via.armed e = !decide (count + 1 ≤ Turn.total past) := by
  rw [h.runs.armed, Bool.eq_iff_iff, List.isEmpty_iff, Bool.not_eq_true', decide_eq_false_iff_not,
    ← h.passed_iff, not_not]

/-- The counter of timer 2 goes on through zero. -/
theorem counter2 (h : RanOnce event .timer2 v start count past x) {from' : UInt16}
    (counts : from'.toNat = count) :
    x.2.via.timer2 event x.1 = from' - .ofNat (Turn.total past) := by
  subst counts
  have left := cyclesUntil?_of_agenda h.runs.due
  have ahead := h.ahead
  have age := h.age
  have due : ∀ n, start + from'.toNat + 1 + n * v.period .timer2 =
      start + from'.toNat + 1 + n * 0x10000 := fun _ => rfl
  rw [due] at left ahead
  -- The alarm is at most one round of the counter away.
  have near : start + from'.toNat + (x.2.timeOutsOf .timer2).length * 0x10000 <
      x.1.elapsed + 0x10000 := by
    have small := from'.toNat_lt
    cases laps : (x.2.timeOutsOf .timer2).length with
    | zero => omega
    | succ n =>
      have last := h.runs.past n (by omega)
      rw [due] at last
      omega
  refine timer2_running event _ (left.trans ?_)
  rw [toNat_sub_ofNat (x.2.timeOutsOf .timer2).length (by omega) (by omega)]
  congr 1
  omega

end RanOnce

/-- A timer that counts cycles was started to interrupt once, with any count and on any clock, and
since then nothing was written to the chip. Whatever else went on, advances, rebases and reads among
it, its flag has risen once where the cycles that passed are more than the count, and not at all
otherwise: it rose at the cycle behind the count. Where timer 1 drives the highest pin of port B,
that pin is low up to then and high from then on. Timer 2 shows what is left of its count, through
zero and for ever. No turn goes wrong. -/
theorem one_shot_rises_once [ToString ε] (inj : Injective event) {Good : σ → Prop}
    (steady : others.Steady Good) (apart : Apart event others) {clock : Clock ε}
    (reach : clock.Reachable) {v : Via} {e : Event} (once : v.TimesOnce e) {register : UInt8}
    (starts : register &&& 0x0F = e.starter) (high : UInt8) (rest : σ) (good : Good rest) :
    ∃ v' clock', v.write event clock register high = .ok (v', clock') ∧
      ∀ turns : List (Turn ε σ), (∀ turn ∈ turns, turn.Fair event Good ∧ turn.Unwritten) →
        let count := v.count high e
        let k := Turn.total turns
        ∃ enough now s,
          (∀ budget, enough ≤ budget →
            run event others budget turns (clock', ⟨v', [], rest⟩) = .ok (now, s) ∧
            rises event others e budget turns (clock', ⟨v', [], rest⟩) =
              if count.toNat + 1 ≤ k then 1 else 0) ∧
          (s.timeOutsOf e ≠ [] ↔ count.toNat + 1 ≤ k) ∧
          (∀ t ∈ (s.timeOutsOf e).head?,
            t.cycle = clock.elapsed + count.toNat + 1 ∧ t.chip.raised e = true) ∧
          (e = .timer1 → anyBit v.control Control.timerOutput = true →
            anyBit s.via.pinsB 0x80 = decide (count.toNat + 1 ≤ k)) ∧
          (e = .timer2 → s.via.timer2 event now = count - .ofNat k) := by
  refine ⟨_, _, write_start event reach.wellFormed once starts high, fun turns allowed => ?_⟩
  intro count k
  have loadedOnce := once.loaded high
  have leaves : ∀ turn ∈ turns, turn.Fair event Good ∧ turn.Leaves e := fun turn mem =>
    ⟨(allowed turn mem).1, (allowed turn mem).2.leaves e⟩
  have room : clock.now + (count.toNat + 1) ≤ Cycle.last :=
    add_le_last reach.wellFormed.now_le (count_le_headroom count)
  have sits : Sits Good (clock.setAlarm (clock.now + (count.toNat + 1)) (event e),
      (⟨v.loaded high e, [], rest⟩ : Among σ)) := ⟨reach.setAlarm _ room, good⟩
  obtain ⟨enough, ⟨now, s⟩, hrun⟩ := run_total steady sits fun turn mem => (allowed turn mem).1
  have completed := hrun enough (Nat.le_refl enough)
  obtain ⟨-, ran⟩ := run_keeps steady (fun allowed => allowed.1)
    (fun ran allowed sits ends => RanOnce.step ran loadedOnce inj apart allowed.2 sits ends)
    allowed sits (RanOnce.load v high e rest) completed
  rw [List.nil_append] at ran
  have armed : s.via.armed e = !decide (count.toNat + 1 ≤ k) := ran.armed_eq
  refine ⟨enough, now, s, fun budget more => ⟨hrun budget more, ?_⟩, ran.passed_iff,
    ran.runs.first, ?_, ?_⟩
  · have risen := rises_add_armed steady leaves sits loadedOnce.oneShot
      (fun _ => v.raised_loaded high e) (hrun budget more)
    rw [armed, v.armed_loaded high e] at risen
    refine (Nat.eq_sub_of_add_eq risen).trans ?_
    by_cases late : count.toNat + 1 ≤ k
    · rw [if_pos late, decide_eq_true late]
      rfl
    · rw [if_neg late, decide_eq_false late]
      rfl
  · rintro rfl drives
    have drives' : anyBit s.via.control Control.timerOutput = true := by
      rw [ran.runs.control]
      exact drives
    rw [anyBit_pinsB _ drives', ran.runs.output rfl drives, armed, Bool.not_not]
  · rintro rfl
    exact ran.counter2 rfl

/-- Timer 1 with a count of three, driving its pin, on a clock at the top of its counter and beside
another alarm. In the course of a hundred cycles its flag rises once, although it is cleared, and
the pin is high in the end. -/
theorem one_shot_rises_once_brim :
    let clock : Clock (Option Event) := ⟨Cycle.clockMax, 0, 0, 0, []⟩
    let v : Via := { initial with control := 0x80, latch1 := 3 }
    let turns : List (Turn (Option Event) Nat) :=
      [.setAlarm (Cycle.clockMax + 2) none, .advance 4, .read 0x4, .rebase, .advance 96]
    Injective (some : Event → Option Event) ∧ beeper.Steady (fun _ => True) ∧
      Apart some beeper ∧ clock.Reachable ∧ v.TimesOnce .timer1 ∧
      (∀ turn ∈ turns, turn.Fair some (fun _ => True) ∧ turn.Unwritten) ∧
      ∃ v' clock', v.write some clock 0x5 0 = .ok (v', clock') ∧ ∃ enough now s,
        (∀ budget, enough ≤ budget →
          run some beeper budget turns (clock', ⟨v', [], 0⟩) = .ok (now, s) ∧
          rises some beeper .timer1 budget turns (clock', ⟨v', [], 0⟩) = 1) ∧
        (∀ t ∈ (s.timeOutsOf .timer1).head?, t.cycle = Cycle.clockMax + 4) ∧
        anyBit s.via.pinsB 0x80 = true := by
  intro clock v turns
  have inj : Injective (some : Event → Option Event) := fun _ _ => Option.some.inj
  have reach : clock.Reachable := .start (show start Cycle.clockMax = .ok clock from rfl)
  have once : v.TimesOnce .timer1 := show anyBit v.control Control.freeRun = false by decide
  have three : (v.count 0 .timer1).toNat = 3 := by decide
  have allowed : ∀ turn ∈ turns, turn.Fair some (fun _ => True) ∧ turn.Unwritten := by
    intro turn mem
    simp only [turns, List.mem_cons, List.not_mem_nil, or_false] at mem
    obtain rfl | rfl | rfl | rfl | rfl := mem
    · exact ⟨⟨by decide, fun e => (Option.some_ne_none e).symm⟩, trivial⟩
    · exact ⟨show 4 ≤ Cycle.clockMax by decide, trivial⟩
    · exact ⟨trivial, trivial⟩
    · exact ⟨trivial, trivial⟩
    · exact ⟨show 96 ≤ Cycle.clockMax by decide, trivial⟩
  refine ⟨inj, beeper_steady, beeper_apart, reach, once, allowed, ?_⟩
  obtain ⟨v', clock', written, ran⟩ := one_shot_rises_once inj beeper_steady beeper_apart reach once
    (by decide : 0x5 &&& 0x0F = Event.starter .timer1) 0 0 trivial
  obtain ⟨enough, now, s, hrun, -, first, pin, -⟩ := ran turns allowed
  have total : Turn.total turns = 100 := rfl
  have passed : 3 + 1 ≤ 100 := by decide
  have starts : clock.elapsed + 3 + 1 = Cycle.clockMax + 4 := by decide
  rw [three, total] at hrun pin
  rw [three, starts] at first
  refine ⟨v', clock', written, enough, now, s, fun budget more => ?_,
    fun t head => (first t head).1, ?_⟩
  · exact ⟨(hrun budget more).1, (hrun budget more).2.trans (if_pos passed)⟩
  · exact (pin rfl (by decide)).trans (decide_eq_true passed)

end Turns

end C64.Via
