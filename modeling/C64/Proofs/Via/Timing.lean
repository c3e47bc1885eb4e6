import C64.Proofs.Rtc.Timekeeping
import C64.Proofs.Via.Alarms

/-!
# The versatile adapter on the clock of a machine

A chip shares its clock with others (`Via.serve`), and a time-out leaves a note: which timer it was,
the cycle of its alarm, counted from the making of the clock, and the chip behind it. What happens
to the chip is a list of turns (`Via.Turn`): advances, rebases, registers and pins, and what the
others do meanwhile. Every advance of a clock comes to an end (`Via.advance_succeeds`), and so does
every list of turns that each come to theirs (`Via.run_succeeds`).
-/

namespace C64.Via

open Clock Function

variable {ε σ : Type}

/-! ## A chip beside others -/

/-- A time-out: the cycle its alarm was set for, and the chip behind it. -/
structure TimeOut where
  which : Event
  cycle : Nat
  chip : Via

/-- A chip, the time-outs it had, and what else is on the clock. -/
structure Among (σ : Type) where
  via : Via
  timeOuts : List TimeOut
  rest : σ

namespace Among

/-- The time-outs of one timer, in the order they came in. -/
def timeOutsOf (s : Among σ) (e : Event) : List TimeOut := s.timeOuts.filter (·.which = e)

/-- One of the timers times out. -/
def timeOut (s : Among σ) (cycle : Nat) (e : Event) : Among σ :=
  { s with
    via := s.via.expire e
    timeOuts := s.timeOuts ++ [⟨e, cycle, s.via.expire e⟩] }

theorem timeOutsOf_timeOut (s : Among σ) (cycle : Nat) (e : Event) :
    (s.timeOut cycle e).timeOutsOf e = s.timeOutsOf e ++ [⟨e, cycle, s.via.expire e⟩] := by
  simp [timeOutsOf, timeOut]

theorem timeOutsOf_timeOut_ne (s : Among σ) (cycle : Nat) {e e' : Event} (h : e ≠ e') :
    (s.timeOut cycle e).timeOutsOf e' = s.timeOutsOf e' := by
  simp [timeOutsOf, timeOut, h]

end Among

section Serving

variable [DecidableEq ε] (event : Event → ε) (others : Responder ε σ)

/-- The timer an event of the machine belongs to. -/
def timer? (x : ε) : Option Event :=
  if x = event .timer1 then some .timer1 else if x = event .timer2 then some .timer2 else none

theorem timer?_eq_some {x : ε} {e : Event} (h : timer? event x = some e) : x = event e := by
  unfold timer? at h
  split at h
  · next is1 => cases h; exact is1
  · split at h
    · next is2 => cases h; exact is2
    · exact absurd h nofun

theorem timer?_eq_none {x : ε} (h : timer? event x = none) (e : Event) : x ≠ event e := by
  unfold timer? at h
  split at h
  · exact absurd h nofun
  · next not1 =>
    split at h
    · exact absurd h nofun
    · next not2 => cases e <;> assumption

/-- Hands their alarms to the timers, and every other to whoever waits for it. -/
def serve : Handler ε (Among σ) := fun alarm clock s =>
  match timer? event alarm.event with
  | some e => do
    let (via, clock') ← s.via.onAlarm event clock e alarm.due
    let note : TimeOut := ⟨e, clock.base + alarm.due, via⟩
    return (clock', { s with via, timeOuts := s.timeOuts ++ [note] })
  | none => do
    let (clock, rest) ← others.handler alarm clock s.rest
    return (clock, { s with rest })

/-- What `serve` asks of the clock, and what it makes of the chip. -/
def beside : Responder ε (Among σ) := fun due x s =>
  match timer? event x with
  | some e => ([.set (s.via.period e) (event e)], s.timeOut due e)
  | none => ((others due x s.rest).1, { s with rest := (others due x s.rest).2 })

theorem serve_eq : serve event others = (beside event others).handler := by
  funext alarm clock s
  unfold serve beside Responder.handler
  cases whose : timer? event alarm.event with
  | some e =>
    simp only [whose, onAlarm_eq, setAgain, List.foldlM_cons, List.foldlM_nil, Request.perform]
    cases Cycle.add alarm.due (s.via.period e) <;> rfl
  | none =>
    simp only [whose]
    cases (others (clock.base + alarm.due) alarm.event s.rest).1.foldlM
      (Request.perform alarm.due) clock <;> rfl

theorem beside_steady {Good : σ → Prop} (steady : others.Steady Good) :
    (beside event others).Steady fun s => Good s.rest where
  ahead due x s good := by
    unfold beside
    split
    · intro request mem
      obtain rfl := List.mem_singleton.mp mem
      exact ⟨one_le_period _ _, period_le _ _⟩
    · exact steady.ahead due x s.rest good
  keeps due x s good := by
    unfold beside
    split
    · exact good
    · exact steady.keeps due x s.rest good

/-- The others have alarms of their own, and let those of the timers be. -/
def Apart : Prop :=
  ∀ due x s, timer? event x = none → ∀ request ∈ (others due x s).1, ∀ e,
    Rtc.Spares (event e) request

end Serving

/-! ## What can happen to the chip and around it -/

/-- One thing that happens on a clock with a chip and others. -/
inductive Turn (ε σ : Type) where
  | advance (cycles : Nat)
  | rebase
  | read (register : UInt8)
  | write (register b : UInt8)
  | drive (a b : UInt8)
  | ca1 (level : Bool)
  | cb1 (level : Bool)
  | pulse
  | setAlarm (due : Nat) (x : ε)
  | cancel (x : ε)
  | others (rest : σ)

namespace Turn

/-- The cycles that pass. -/
def cycles : Turn ε σ → Nat
  | .advance cycles => cycles
  | _ => 0

/-- The cycles that pass in the course of some turns. -/
def total (turns : List (Turn ε σ)) : Nat := (turns.map cycles).sum

/-- An advance is no longer than the clock can take, and the others stay in a good state, set alarms
that have a cycle number and leave those of the timers alone. -/
def Fair (event : Event → ε) (Good : σ → Prop) : Turn ε σ → Prop
  | .advance cycles => cycles ≤ Cycle.clockMax
  | .setAlarm due x => due ≤ Cycle.last ∧ ∀ e, x ≠ event e
  | .cancel x => ∀ e, x ≠ event e
  | .others rest => Good rest
  | _ => True

/-- Nothing is written to a register. -/
def Unwritten : Turn ε σ → Prop
  | .write _ _ => False
  | _ => True

end Turn

variable [DecidableEq ε] (event : Event → ε) (others : Responder ε σ)

/-- A turn, whose advance handles so many alarms at most. -/
def act [ToString ε] (budget : Nat) (x : Clock ε × Among σ) :
    Turn ε σ → Except Fault (Clock ε × Among σ)
  | .advance cycles => advanceWithin budget (serve event others) cycles x.1 x.2
  | .rebase => .ok (x.1.rebase, x.2)
  | .read register => .ok (x.1, { x.2 with via := (x.2.via.read event x.1 register).2 })
  | .write register b => do
    let (via, clock) ← x.2.via.write event x.1 register b
    return (clock, { x.2 with via })
  | .drive a b => .ok (x.1, { x.2 with via := { x.2.via with inputA := a, inputB := b } })
  | .ca1 level => .ok (x.1, { x.2 with via := x.2.via.setCa1 level })
  | .cb1 level => .ok (x.1, { x.2 with via := x.2.via.setCb1 level })
  | .pulse => .ok (x.1, { x.2 with via := x.2.via.pulse })
  | .setAlarm due e => .ok (x.1.setAlarm due e, x.2)
  | .cancel e => .ok (x.1.cancel e, x.2)
  | .others rest => .ok (x.1, { x.2 with rest })

/-- One turn after the other. -/
def run [ToString ε] (budget : Nat) (turns : List (Turn ε σ)) (x : Clock ε × Among σ) :
    Except Fault (Clock ε × Among σ) :=
  turns.foldlM (act event others budget) x

/-! ## Starting timer 1 -/

/-- The chip whose timer 1 was loaded with a new high byte. -/
def loaded1 (v : Via) (high : UInt8) : Via :=
  { v.clear Flag.timer1 with
    latch1 := wordOf high (lowByte v.latch1)
    counter1 := wordOf high (lowByte v.latch1)
    armed1 := true
    output1 := false }

/-- Timer 1 can be started on every clock. -/
theorem write_start1 [ToString ε] {clock : Clock ε} (hc : clock.WellFormed) (v : Via)
    {register : UInt8} (starts : register &&& 0x0F = 0x5) (high : UInt8) :
    v.write event clock register high = .ok (v.loaded1 high,
      clock.setAlarm (clock.now + ((v.loaded1 high).latch1.toNat + 1)) (event .timer1)) := by
  have started : v.write event clock register high = v.startTimer1 event clock high := by
    unfold write
    rw [starts]
    rfl
  have set := hc.setAlarmIn_eq (count_le_headroom (v.loaded1 high).latch1) (event .timer1)
  rw [started]
  unfold startTimer1
  exact bind_eq_ok.mpr ⟨_, set, rfl⟩

/-! ## Advances -/

section Advances

variable {others} {Good : σ → Prop} {clock : Clock ε} {s : Among σ} {cycles : Nat}

/-- An advance comes to its end, having fired what was due up to there. -/
theorem advance_succeeds (steady : others.Steady Good) (reach : clock.Reachable)
    (good : Good s.rest) (short : cycles ≤ Cycle.clockMax) :
    ∃ enough clock' s', clock'.Reachable ∧ Good s'.rest ∧
      clock'.elapsed = clock.elapsed + cycles ∧
      (∃ n, Fires (beside event others) clock'.elapsed n clock.agenda s clock'.agenda s') ∧
      ∀ budget, enough ≤ budget →
        advanceWithin budget (serve event others) cycles clock s = .ok (clock', s') := by
  have steady' := beside_steady event others steady
  obtain ⟨n, clock', s', age, leads, hrun⟩ :=
    Responder.advanceWithin steady' reach.wellFormed good short
  have reach' := (reach.advanceWithin (Responder.handler_lawful steady') good
    (hrun n (Nat.le_refl n))).1
  rw [← serve_eq] at hrun
  exact ⟨n, clock', s', reach', leads.good, age, ⟨n, leads.fires⟩, hrun⟩

end Advances

/-- What each allowed turn keeps, and comes to its end with, so does a list of them. -/
theorem run_succeeds [ToString ε] {P : Clock ε × Among σ → Prop} {Allowed : Turn ε σ → Prop}
    (each : ∀ {x turn}, P x → Allowed turn →
      ∃ enough y, P y ∧ y.1.elapsed = x.1.elapsed + turn.cycles ∧
        ∀ budget, enough ≤ budget → act event others budget x turn = .ok y)
    {turns : List (Turn ε σ)} (allowed : ∀ turn ∈ turns, Allowed turn) {x : Clock ε × Among σ}
    (before : P x) :
    ∃ enough y, P y ∧ y.1.elapsed = x.1.elapsed + Turn.total turns ∧
      ∀ budget, enough ≤ budget → run event others budget turns x = .ok y := by
  induction turns generalizing x with
  | nil => exact ⟨0, x, before, rfl, fun _ _ => rfl⟩
  | cons turn rest ih =>
    obtain ⟨first, y, holds, age, hact⟩ := each before (allowed turn (.head rest))
    obtain ⟨others, z, holds', age', hrun⟩ := ih (fun t mem => allowed t (.tail turn mem)) holds
    refine ⟨max first others, z, holds', ?_, fun budget enough => ?_⟩
    · rw [age', age, Nat.add_assoc]
      rfl
    · unfold run
      rw [List.foldlM_cons, hact budget (Nat.le_trans (Nat.le_max_left ..) enough)]
      exact hrun budget (Nat.le_trans (Nat.le_max_right ..) enough)

end C64.Via
