import C64.Proofs.Via.Latch
import C64.Proofs.Via.Timing

/-!
# Timer 1 runs on

With bit 6 of its control register set, timer 1 interrupts at every time-out. How many there have
been settles the rest (`Via.FreeRuns`): when the next one is due, what the timer puts out, and what
each of them left. Every alarm on the clock keeps this count right, those of timer 2 and of others
among them (`Via.FreeRuns.alarm`), and so does every turn in which nothing is written
(`Via.FreeRan.act`). The first period is one cycle longer than the latch, since the counter is full
for a cycle before it is loaded again but not before it is loaded first (`Via.free_run_exact`).
-/

namespace C64.Via

open Clock Function

variable {ε σ : Type}

/-! ## What leaves timer 1 alone -/

/-- No bit is set by clearing some. -/
theorem anyBit_and_of_clear {b mask : UInt8} (kept : UInt8) (h : anyBit b mask = false) :
    anyBit (b &&& kept) mask = false := by
  unfold anyBit at *
  have swap : b &&& kept &&& mask = b &&& mask &&& kept := by ac_rfl
  rw [bne_eq_false_iff_eq] at *
  rw [swap, h, UInt8.zero_and]

/-- Nothing that timer 1 runs by has changed, and its interrupt was not raised. -/
structure Spares1 (v v' : Via) : Prop where
  latch : v'.latch1 = v.latch1
  control : v'.control = v.control
  armed : v'.armed1 = v.armed1
  output : v'.output1 = v.output1
  flag : anyBit v.flags Flag.timer1 = false → anyBit v'.flags Flag.timer1 = false

namespace Spares1

theorem raise (v : Via) {flag : UInt8} (other : flag &&& Flag.timer1 = 0) :
    Spares1 v (v.raise flag) :=
  ⟨rfl, rfl, rfl, rfl, fun clear => (anyBit_withBits_of_disjoint v.flags true other).trans clear⟩

theorem read [DecidableEq ε] (event : Event → ε) (v : Via) (clock : Clock ε) (register : UInt8) :
    Spares1 v (v.read event clock register).2 :=
  ⟨rfl, rfl, rfl, rfl, anyBit_and_of_clear _⟩

theorem setCa1 (v : Via) (level : Bool) : Spares1 v (v.setCa1 level) := by
  have raised := raise v (show Flag.ca1 &&& Flag.timer1 = 0 by decide)
  unfold Via.setCa1
  simp only []
  split
  · exact ⟨rfl, rfl, rfl, rfl, raised.flag⟩
  · exact ⟨rfl, rfl, rfl, rfl, id⟩

theorem setCb1 (v : Via) (level : Bool) : Spares1 v (v.setCb1 level) := by
  have raised := raise v (show Flag.cb1 &&& Flag.timer1 = 0 by decide)
  unfold Via.setCb1
  simp only []
  split
  · exact ⟨rfl, rfl, rfl, rfl, raised.flag⟩
  · exact ⟨rfl, rfl, rfl, rfl, id⟩

theorem timeOut2 (v : Via) : Spares1 v v.timeOut2 := by
  have raised := raise v (show Flag.timer2 &&& Flag.timer1 = 0 by decide)
  unfold Via.timeOut2
  split
  · exact ⟨rfl, rfl, rfl, rfl, raised.flag⟩
  · exact ⟨rfl, rfl, rfl, rfl, id⟩

theorem pulse (v : Via) : Spares1 v v.pulse := by
  unfold Via.pulse
  split
  · exact ⟨rfl, rfl, rfl, rfl, id⟩
  · simp only []
    split
    · obtain ⟨latch, control, armed, output, flag⟩ :=
        timeOut2 { v with counter2 := v.counter2 - 1 }
      exact ⟨latch, control, armed, output, flag⟩
    · exact ⟨rfl, rfl, rfl, rfl, id⟩

end Spares1

/-! ## The time-outs so far -/

section

variable [DecidableEq ε] (event : Event → ε)

/-- Timer 1 was loaded with `latch` at cycle `start`, with this control register, and has run on
since: the time-outs it had, and the one its alarm waits for. -/
structure FreeRuns (start latch : Nat) (control : UInt8) (q : Agenda ε) (s : Among σ) : Prop where
  latch_eq : s.via.latch1.toNat = latch
  control_eq : s.via.control = control
  armed : s.via.armed1 = true
  output : anyBit control Control.timerOutput = true →
    s.via.output1 = decide ((s.timeOutsOf .timer1).length % 2 = 1)
  due : q.due? (event .timer1) =
    some (start + latch + 1 + (s.timeOutsOf .timer1).length * (latch + 2))
  noted : ∀ j t, (s.timeOutsOf .timer1)[j]? = some t →
    t.cycle = start + latch + 1 + j * (latch + 2) ∧ anyBit t.chip.flags Flag.timer1 = true ∧
      (anyBit control Control.timerOutput = true →
        anyBit t.chip.pinsB 0x80 = decide (j % 2 = 0))
  quiet : s.timeOutsOf .timer1 = [] → anyBit s.via.flags Flag.timer1 = false

variable {event} {start latch : Nat} {control : UInt8} {q q' : Agenda ε} {s s' : Among σ}

/-- What leaves timer 1 and its alarm alone leaves the count of its time-outs alone. -/
theorem FreeRuns.spared (h : FreeRuns event start latch control q s)
    (chip : Spares1 s.via s'.via) (notes : s'.timeOutsOf .timer1 = s.timeOutsOf .timer1)
    (alarm : q'.due? (event .timer1) = q.due? (event .timer1)) :
    FreeRuns event start latch control q' s' where
  latch_eq := chip.latch ▸ h.latch_eq
  control_eq := chip.control.trans h.control_eq
  armed := chip.armed.trans h.armed
  output drives := by rw [chip.output, notes, h.output drives]
  due := by rw [alarm, notes, h.due]
  noted := notes ▸ h.noted
  quiet none := chip.flag (h.quiet (notes ▸ none))

/-- With the pin driven by the timer, it has the level that the timer puts out. -/
theorem anyBit_pinsB (v : Via) (drives : anyBit v.control Control.timerOutput = true) :
    anyBit v.pinsB 0x80 = v.output1 := by
  have high : ∀ b : UInt8, anyBit (b &&& 0x7F ||| 0x80) 0x80 = true ∧
      anyBit (b &&& 0x7F ||| 0) 0x80 = false := by
    refine forall_byte ?_
    decide +kernel
  unfold pinsB withTimerOutput
  rw [if_pos drives]
  cases v.output1 with
  | true => exact (high _).1
  | false => exact (high _).2

/-- A time-out of timer 1 is the next one of the count. -/
theorem FreeRuns.timeOut (h : FreeRuns event start latch control q s) {cycle : Nat}
    (free : anyBit control Control.freeRun = true)
    (now : q.due? (event .timer1) = some cycle)
    (alarm : q'.due? (event .timer1) = some (cycle + (latch + 2))) :
    FreeRuns event start latch control q' (s.timeOut cycle .timer1) := by
  have at' : cycle = start + latch + 1 + (s.timeOutsOf .timer1).length * (latch + 2) :=
    Option.some.inj (now.symm.trans h.due)
  have chip : (s.timeOut cycle .timer1).via = _ := timeOut1_eq s.via
  have notes : (s.timeOut cycle .timer1).timeOutsOf .timer1 =
      s.timeOutsOf .timer1 ++ [⟨.timer1, cycle, (s.timeOut cycle .timer1).via⟩] :=
    s.timeOutsOf_timeOut cycle .timer1
  have count := congrArg List.length notes
  rw [List.length_append, List.length_singleton] at count
  rw [h.armed, h.control_eq, free, Bool.true_and] at chip
  have control_eq : (s.timeOut cycle .timer1).via.control = control := by
    rw [chip]
  have output : anyBit control Control.timerOutput = true →
      (s.timeOut cycle .timer1).via.output1 =
        decide (((s.timeOut cycle .timer1).timeOutsOf .timer1).length % 2 = 1) := by
    intro drives
    rw [chip, count]
    simp only [drives, if_true, Bool.not_true, Bool.false_or, h.output drives, ← decide_not,
      decide_eq_decide]
    omega
  refine ⟨?_, control_eq, ?_, output, ?_, ?_, ?_⟩
  · rw [chip]
    exact h.latch_eq
  · rw [chip]
  · rw [alarm, count, at', Nat.succ_mul, Nat.add_assoc _ _ (latch + 2)]
  · intro j t found
    rw [notes, List.getElem?_append] at found
    split at found
    · exact h.noted j t found
    · next last =>
      obtain ⟨here, rfl⟩ := List.getElem?_eq_some_iff.mp found
      rw [List.length_singleton] at here
      obtain rfl : j = (s.timeOutsOf .timer1).length := by omega
      rw [List.getElem_singleton]
      refine ⟨at', ?_, fun drives => ?_⟩
      · rw [chip]
        exact anyBit_withBits_self s.via.flags true (by decide)
      · rw [anyBit_pinsB _ (control_eq ▸ drives), output drives, count, decide_eq_decide]
        omega
  · intro none
    rw [none] at count
    exact absurd count nofun

/-- Every alarm on the clock keeps the count. -/
theorem FreeRuns.alarm (h : FreeRuns event start latch control q s) (inj : Injective event)
    {others : Responder ε σ} (apart : Apart event others)
    (free : anyBit control Control.freeRun = true) {x : ε} {due : Nat} {rest : Agenda ε}
    (first : q = (due, x) :: rest) :
    FreeRuns event start latch control
      ((beside event others due x s).1.foldl (Request.apply due) rest)
      (beside event others due x s).2 := by
  subst first
  unfold beside
  cases whose : timer? event x with
  | none =>
    have other := timer?_eq_none event whose .timer1
    refine h.spared ⟨rfl, rfl, rfl, rfl, id⟩ rfl ?_
    rw [Rtc.Spares.due?_foldl fun request mem => apart due x s.rest whose request mem .timer1]
    exact (Agenda.due?_cons_ne other rest).symm
  | some e =>
    obtain rfl := timer?_eq_some event whose
    simp only [List.foldl_cons, List.foldl_nil]
    cases e with
    | timer1 =>
      refine h.timeOut free (Agenda.due?_cons_self due _ rest) ?_
      rw [← h.latch_eq]
      exact Agenda.due?_set_self rest _ (event .timer1)
    | timer2 =>
      have other : event .timer2 ≠ event .timer1 := inj.ne (by decide)
      refine h.spared (.timeOut2 s.via) (s.timeOutsOf_timeOut_ne due (by decide)) ?_
      exact (Agenda.due?_set_ne rest _ other).trans (Agenda.due?_cons_ne other rest).symm

end

/-! ## Turns -/

section Turns

variable [DecidableEq ε] (event : Event → ε) (others : Responder ε σ)

/-- A clock and a chip on it whose timer 1 has run on up to now. -/
structure FreeRan (Good : σ → Prop) (start latch : Nat) (control : UInt8)
    (x : Clock ε × Among σ) : Prop where
  reachable : x.1.Reachable
  good : Good x.2.rest
  runs : FreeRuns event start latch control x.1.agenda x.2
  ahead : x.1.elapsed < start + latch + 1 + (x.2.timeOutsOf .timer1).length * (latch + 2)
  past : ∀ t ∈ x.2.timeOutsOf .timer1, t.cycle ≤ x.1.elapsed

variable {event others} {Good : σ → Prop} {start latch : Nat} {control : UInt8}
  {x : Clock ε × Among σ}

theorem FreeRan.advance (h : FreeRan event Good start latch control x) (inj : Injective event)
    (steady : others.Steady Good) (apart : Apart event others)
    (free : anyBit control Control.freeRun = true) {cycles : Nat}
    (short : cycles ≤ Cycle.clockMax) :
    ∃ enough y, FreeRan event Good start latch control y ∧
      y.1.elapsed = x.1.elapsed + cycles ∧ ∀ budget, enough ≤ budget →
        advanceWithin budget (serve event others) cycles x.1 x.2 = .ok y := by
  obtain ⟨enough, clock', s', reach, good, age, ⟨n, fires⟩, hrun⟩ :=
    advance_succeeds event steady h.reachable h.good short
  -- Behind each alarm the count is right, and nothing is noted for a cycle to come.
  let Counted (q : Agenda ε) (s : Among σ) : Prop :=
    FreeRuns event start latch control q s ∧ ∀ t ∈ s.timeOutsOf .timer1, t.cycle ≤ clock'.elapsed
  have counted : Counted clock'.agenda s' := by
    refine fires.keeps (P := Counted) ?_
      ⟨h.runs, fun t mem => Nat.le_trans (h.past t mem) (age ▸ Nat.le_add_right ..)⟩
    rintro due e q s reached ⟨runs, past⟩
    refine ⟨runs.alarm inj apart free rfl, fun t mem => ?_⟩
    unfold beside at mem
    split at mem
    · next which _ =>
      obtain rfl | other := eq_or_ne which .timer1
      · rw [Among.timeOutsOf_timeOut, List.mem_append, List.mem_singleton] at mem
        obtain old | rfl := mem
        · exact past t old
        · exact reached
      · rw [Among.timeOutsOf_timeOut_ne _ _ other] at mem
        exact past t mem
    · exact past t mem
  have ahead := Rtc.lt_due?_of_head reach.wellFormed.agenda_sorted fires.none_due counted.1.due
  exact ⟨enough, (clock', s'), ⟨reach, good, counted.1, ahead, counted.2⟩, age, hrun⟩

/-- A turn that takes no time and leaves timer 1 and its alarm alone. -/
theorem FreeRan.still (h : FreeRan event Good start latch control x) {clock : Clock ε}
    {s : Among σ} (reach : clock.Reachable) (good : Good s.rest) (age : clock.elapsed = x.1.elapsed)
    (chip : Spares1 x.2.via s.via) (notes : s.timeOutsOf .timer1 = x.2.timeOutsOf .timer1)
    (alarm : clock.agenda.due? (event .timer1) = x.1.agenda.due? (event .timer1)) :
    FreeRan event Good start latch control (clock, s) where
  reachable := reach
  good := good
  runs := h.runs.spared chip notes alarm
  ahead := by
    show clock.elapsed < start + latch + 1 + (s.timeOutsOf .timer1).length * (latch + 2)
    rw [age, notes]
    exact h.ahead
  past := by
    show ∀ t ∈ s.timeOutsOf .timer1, t.cycle ≤ clock.elapsed
    rw [age, notes]
    exact h.past

theorem FreeRan.chip (h : FreeRan event Good start latch control x) {v : Via}
    (chip : Spares1 x.2.via v) :
    FreeRan event Good start latch control (x.1, { x.2 with via := v }) :=
  h.still h.reachable h.good rfl chip rfl rfl

theorem FreeRan.act [ToString ε] (h : FreeRan event Good start latch control x)
    (inj : Injective event) (steady : others.Steady Good) (apart : Apart event others)
    (free : anyBit control Control.freeRun = true) {turn : Turn ε σ} (fair : turn.Fair event Good)
    (unwritten : turn.Unwritten) :
    ∃ enough y, FreeRan event Good start latch control y ∧
      y.1.elapsed = x.1.elapsed + turn.cycles ∧ ∀ budget, enough ≤ budget →
        Via.act event others budget x turn = .ok y := by
  have keeps : Spares1 x.2.via x.2.via := ⟨rfl, rfl, rfl, rfl, id⟩
  cases turn with
  | advance cycles => exact h.advance inj steady apart free fair
  | rebase =>
    exact ⟨0, _, h.still h.reachable.rebase h.good (elapsed_rebase x.1) keeps rfl
      (by rw [h.reachable.wellFormed.agenda_rebase]), elapsed_rebase x.1, fun _ _ => rfl⟩
  | read register => exact ⟨0, _, h.chip (.read event _ x.1 register), rfl, fun _ _ => rfl⟩
  | write register b => exact unwritten.elim
  | drive a b =>
    have pins : Spares1 x.2.via { x.2.via with inputA := a, inputB := b } :=
      ⟨rfl, rfl, rfl, rfl, id⟩
    exact ⟨0, _, h.chip pins, rfl, fun _ _ => rfl⟩
  | ca1 level => exact ⟨0, _, h.chip (.setCa1 _ level), rfl, fun _ _ => rfl⟩
  | cb1 level => exact ⟨0, _, h.chip (.setCb1 _ level), rfl, fun _ _ => rfl⟩
  | pulse => exact ⟨0, _, h.chip (.pulse _), rfl, fun _ _ => rfl⟩
  | setAlarm due e =>
    refine ⟨0, _, h.still (h.reachable.setAlarm e fair.1) h.good rfl keeps rfl ?_, rfl,
      fun _ _ => rfl⟩
    rw [agenda_setAlarm, Agenda.due?_set_ne _ _ (fair.2 .timer1)]
  | cancel e =>
    refine ⟨0, _, h.still (h.reachable.cancel e) h.good rfl keeps rfl ?_, rfl, fun _ _ => rfl⟩
    rw [agenda_cancel, Agenda.due?_cancel_ne _ (fair .timer1)]
  | others rest =>
    exact ⟨0, _, h.still (s := { x.2 with rest }) h.reachable fair rfl keeps rfl rfl, rfl,
      fun _ _ => rfl⟩

/-- The count begins where the timer is loaded. -/
theorem FreeRan.load {clock : Clock ε} (reach : clock.Reachable) (v : Via) (high : UInt8)
    {rest : σ} (good : Good rest) :
    FreeRan event Good clock.elapsed (v.loaded1 high).latch1.toNat v.control
      (clock.setAlarm (clock.now + ((v.loaded1 high).latch1.toNat + 1)) (event .timer1),
        ⟨v.loaded1 high, [], rest⟩) := by
  have room : clock.now + ((v.loaded1 high).latch1.toNat + 1) ≤ Cycle.last :=
    add_le_last reach.wellFormed.now_le (count_le_headroom _)
  refine ⟨reach.setAlarm _ room, good, ⟨rfl, rfl, rfl, fun _ => rfl, ?_, nofun, fun _ => ?_⟩, ?_,
    nofun⟩
  · rw [agenda_setAlarm, Agenda.due?_set_self]
    show some _ = some (clock.base + clock.now + _ + 1 + 0 * _)
    rw [Nat.zero_mul]
    congr 1
    omega
  · exact anyBit_withBits_self v.flags false (by decide)
  · show clock.base + clock.now < clock.base + clock.now + _ + 1 + 0 * _
    omega

/-! ## The counter -/

/-- What timer 1 shows so many cycles after it was loaded. -/
def freeRunCounter (latch cycles : Nat) : Nat :=
  if cycles ≤ latch then latch - cycles
  else if (cycles - latch - 1) % (latch + 2) = 0 then 0xFFFF
  else latch + 1 - (cycles - latch - 1) % (latch + 2)

/-- The counter follows from the time-outs that have been. -/
theorem countDown_eq {latch cycles n : Nat} (small : latch < 0x10000)
    (past : ∀ j < n, latch + 1 + j * (latch + 2) ≤ cycles)
    (ahead : cycles < latch + 1 + n * (latch + 2)) :
    countDown latch (latch + 1 + n * (latch + 2) - cycles) = freeRunCounter latch cycles := by
  unfold countDown freeRunCounter
  cases n with
  | zero =>
    rw [Nat.zero_mul, Nat.add_zero] at *
    have first : cycles ≤ latch := by omega
    have counts : latch + 1 - cycles ≠ latch + 2 := by omega
    rw [if_neg counts, if_pos first]
    omega
  | succ n =>
    obtain ⟨m, rfl⟩ := Nat.exists_eq_add_of_le (past n (Nat.lt_succ_self n))
    rw [Nat.succ_mul] at *
    have later : ¬latch + 1 + n * (latch + 2) + m ≤ latch := by omega
    have behind : latch + 1 + n * (latch + 2) + m - latch - 1 = n * (latch + 2) + m := by omega
    have left : latch + 1 + (n * (latch + 2) + (latch + 2)) - (latch + 1 + n * (latch + 2) + m) =
        latch + 2 - m := by
      omega
    have within : m < latch + 2 := by omega
    rw [if_neg later, behind, left, Nat.mul_add_mod', Nat.mod_eq_of_lt within]
    by_cases reload : m = 0
    · rw [if_pos (by omega), if_pos reload]
    · rw [if_neg (by omega), if_neg reload]
      omega

/-- By the cycles that passed, the time-outs there were. -/
theorem FreeRan.lt_length_iff (h : FreeRan event Good start latch control x) {cycles : Nat}
    (passed : x.1.elapsed = start + cycles) (j : Nat) :
    j < (x.2.timeOutsOf .timer1).length ↔ latch + 1 + j * (latch + 2) ≤ cycles := by
  constructor
  · intro inside
    have cycle := (h.runs.noted j _ (List.getElem?_eq_getElem inside)).1
    have := h.past _ (List.getElem_mem inside)
    omega
  · intro due
    refine Nat.lt_of_not_le fun beyond => ?_
    have := Nat.mul_le_mul_right (latch + 2) beyond
    have := h.ahead
    omega

theorem FreeRan.counter (h : FreeRan event Good start latch control x) {cycles : Nat}
    (passed : x.1.elapsed = start + cycles) :
    (x.2.via.timer1 event x.1).toNat = freeRunCounter latch cycles := by
  have left := cyclesUntil?_of_agenda h.runs.due
  have small : latch < 0x10000 := h.runs.latch_eq ▸ UInt16.toNat_lt _
  have ahead := h.ahead
  rw [timer1_running event x.2.via left, h.runs.latch_eq, passed,
    ← countDown_eq small (fun j => (h.lt_length_iff passed j).mp) (by omega)]
  congr 1
  omega

/-- Timer 1 was loaded with any latch, on any clock and with bit 6 of the control register set, and
since then nothing was written to the chip. Whatever else went on, advances and rebases among it, it
has timed out at the cycles of a first period that is one cycle longer than the latch and of others
that are two cycles longer, as far as they passed, and at no others. Each time its interrupt was
raised and the highest pin of port B changed if the timer drives it, beginning with a low level. The
counter shows what is left of the period. No turn goes wrong. -/
theorem free_run_exact [ToString ε] (inj : Injective event) (steady : others.Steady Good)
    (apart : Apart event others) {clock : Clock ε} (reach : clock.Reachable) (v : Via)
    (free : anyBit v.control Control.freeRun = true) {register : UInt8}
    (starts : register &&& 0x0F = 0x5) (high : UInt8) (rest : σ) (good : Good rest) :
    let latch := (wordOf high (lowByte v.latch1)).toNat
    ∃ v' clock', v.write event clock register high = .ok (v', clock') ∧
      ∀ turns : List (Turn ε σ), (∀ turn ∈ turns, turn.Fair event Good ∧ turn.Unwritten) →
        ∃ enough now s,
          (∀ budget, enough ≤ budget →
            run event others budget turns (clock', ⟨v', [], rest⟩) = .ok (now, s)) ∧
          let k := Turn.total turns
          let timeOuts := s.timeOutsOf .timer1
          (∀ j, j < timeOuts.length ↔ latch + 1 + j * (latch + 2) ≤ k) ∧
          (∀ j t, timeOuts[j]? = some t →
            t.cycle = clock.elapsed + latch + 1 + j * (latch + 2) ∧
            anyBit t.chip.flags Flag.timer1 = true ∧
            (anyBit v.control Control.timerOutput = true →
              anyBit t.chip.pinsB 0x80 = decide (j % 2 = 0))) ∧
          (timeOuts = [] → anyBit s.via.flags Flag.timer1 = false) ∧
          (anyBit v.control Control.timerOutput = true →
            anyBit s.via.pinsB 0x80 = decide (timeOuts.length % 2 = 1)) ∧
          (s.via.timer1 event now).toNat = freeRunCounter latch k := by
  intro latch
  refine ⟨_, _, write_start1 event reach.wellFormed v starts high, fun turns allowed => ?_⟩
  have loaded : FreeRan event Good clock.elapsed latch v.control _ := .load reach v high good
  obtain ⟨enough, ⟨now, s⟩, ran, age, hrun⟩ := run_succeeds event others
    (fun h hturn => FreeRan.act h inj steady apart free hturn.1 hturn.2) allowed loaded
  refine ⟨enough, now, s, hrun, ran.lt_length_iff age, ran.runs.noted, ran.runs.quiet, ?_,
    ran.counter age⟩
  intro drives
  rw [anyBit_pinsB _ (ran.runs.control_eq ▸ drives), ran.runs.output drives]

/-- A latch of three, on a clock at the top of its counter and beside an alarm that comes every
three hundred cycles. In the course of twenty-three cycles the timer times out four times, and then
its counter is zero. -/
theorem free_run_exact_brim :
    let event : Event → Option Event := some
    let others : Responder (Option Event) Nat := fun _ _ n => ([.set 300 none], n + 1)
    let clock : Clock (Option Event) := ⟨Cycle.clockMax, 0, 0, 0, []⟩
    let v : Via := { initial with control := 0xC0, latch1 := 3 }
    let turns : List (Turn (Option Event) Nat) :=
      [.setAlarm (Cycle.clockMax + 2) none, .advance 3, .read 0x4, .rebase, .advance 20]
    Injective event ∧ others.Steady (fun _ => True) ∧ Apart event others ∧ clock.Reachable ∧
      anyBit v.control Control.freeRun = true ∧
      (∀ turn ∈ turns, turn.Fair event (fun _ => True) ∧ turn.Unwritten) ∧
      ∃ v' clock', v.write event clock 0x5 0 = .ok (v', clock') ∧
        ∃ enough now s,
          (∀ budget, enough ≤ budget →
            run event others budget turns (clock', ⟨v', [], 0⟩) = .ok (now, s)) ∧
          (s.timeOutsOf .timer1).length = 4 ∧
          (∀ t, (s.timeOutsOf .timer1)[3]? = some t → t.cycle = Cycle.clockMax + 19 ∧
            anyBit t.chip.pinsB 0x80 = false) ∧
          s.via.timer1 event now = 0 := by
  intro event others clock v turns
  have inj : Injective event := fun _ _ => Option.some.inj
  have steady : others.Steady fun _ => True := by
    refine ⟨fun due x n _ request mem => ?_, fun _ _ _ _ => trivial⟩
    obtain rfl := List.mem_singleton.mp mem
    exact ⟨by decide, by decide⟩
  have apart : Apart event others := by
    intro due x n _ request mem e
    obtain rfl := List.mem_singleton.mp mem
    exact (Option.some_ne_none e).symm
  have reach : clock.Reachable := .start (show start Cycle.clockMax = .ok clock from rfl)
  have allowed : ∀ turn ∈ turns, turn.Fair event (fun _ => True) ∧ turn.Unwritten := by
    intro turn mem
    simp only [turns, List.mem_cons, List.not_mem_nil, or_false] at mem
    obtain rfl | rfl | rfl | rfl | rfl := mem
    · exact ⟨⟨by decide, fun e => (Option.some_ne_none e).symm⟩, trivial⟩
    · exact ⟨show 3 ≤ Cycle.clockMax by decide, trivial⟩
    · exact ⟨trivial, trivial⟩
    · exact ⟨trivial, trivial⟩
    · exact ⟨show 20 ≤ Cycle.clockMax by decide, trivial⟩
  refine ⟨inj, steady, apart, reach, by decide, allowed, ?_⟩
  obtain ⟨v', clock', written, ran⟩ := free_run_exact inj steady apart reach v (by decide)
    (by decide : 0x5 &&& 0x0F = (0x5 : UInt8)) 0 0 trivial
  obtain ⟨enough, now, s, hrun, count, noted, -, -, counter⟩ := ran turns allowed
  have four : (s.timeOutsOf .timer1).length = 4 := by
    have third := (count 3).mpr (by decide)
    have fourth := mt (count 4).mp (by decide)
    omega
  refine ⟨v', clock', written, enough, now, s, hrun, four, fun t last => ?_, ?_⟩
  · obtain ⟨cycle, -, level⟩ := noted 3 t last
    exact ⟨cycle.trans (by decide), level (by decide)⟩
  · exact UInt16.toNat_inj.mp (counter.trans (by decide))

end Turns

end C64.Via
