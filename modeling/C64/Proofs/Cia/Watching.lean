import C64.Proofs.Cia.Scheduling
import C64.Proofs.Cia.Timekeeping
import C64.Proofs.Clock.Abreast

/-!
# A chip that is watched

What happens to a chip on a clock is a list of turns (`Watched.Turn`): time passes, a register is
read or written, a pin changes, the chip is reset, or something happens that it has no part in.
Nothing is asked of the others on the clock, which may set and cancel what alarms they like.

Beside the chip stands what has happened to its interrupt sources, turn by turn and alarm by alarm
(`Note`). What raises a source is told from the chip before it, not from the source (`Cause`).
-/

namespace C64.Cia

open Clock

/-! ## What raises a source -/

/-- A cause of an interrupt. -/
inductive Cause where
  | underflow (which : TimerId)
  | alarmTime
  | sent
  | flagEdge
deriving DecidableEq

/-- The bit of the source that it raises. -/
def Cause.bit : Cause → UInt8
  | underflow which => Source.timer which
  | alarmTime => Source.timeOfDay
  | sent => Source.serial
  | flagEdge => Source.flagPin

/-- What an alarm of the chip is the cause of. The alarm of a timer is its underflow, and timer B
underflows along with timer A where it counts underflows and has come to zero. A tenth of a second
is a cause where it brings a running clock to the alarm time. -/
def causesOfAlarm (c : Cia) : Event → List Cause
  | .timer .a => .underflow .a :: if c.chained ∧ c.timerB.counter = 0 then [.underflow .b] else []
  | .timer .b => [.underflow .b]
  | .tod => if c.todStopped = false ∧ c.tod.next = c.todAlarm then [.alarmTime] else []

/-- What a write is the cause of. A byte in the serial register is sent if the register is an
output. -/
def causesOfWrite (c : Cia) (register : UInt8) : List Cause :=
  if register &&& 0x0F = 0x0C ∧ anyBit c.timerA.control Control.serialOut then [.sent] else []

/-- The flags with those of some causes set. -/
def flagged (b : UInt8) (causes : List Cause) : UInt8 := causes.foldl (· ||| ·.bit) b

/-- An alarm changes the timers and the time, and sets the flags of what it causes. -/
theorem expire_changes (c : Cia) (e : Event) : ∃ timerA timerB tod,
    c.expire e = { c with
      timerA, timerB, tod, sources := flagged c.sources (c.causesOfAlarm e) } := by
  cases e with
  | timer which =>
    cases which with
    | a =>
      let c₁ := (c.raise (Source.timer .a)).withTimer .a c.timerA.underflow
      show ∃ timerA timerB tod, (if c.chained then c₁.countUnderflow else c₁) = _
      unfold causesOfAlarm countUnderflow
      cases c.chained with
      | false => exact ⟨_, _, _, rfl⟩
      | true =>
        show ∃ timerA timerB tod, (if c.timerB.counter = 0 then _ else _) = _
        by_cases zero : c.timerB.counter = 0
        · simp only [zero, if_true, and_self]
          exact ⟨_, _, _, rfl⟩
        · simp only [zero, if_false, and_false]
          exact ⟨_, _, _, rfl⟩
    | b => exact ⟨_, _, _, rfl⟩
  | tod =>
    have causes : c.causesOfAlarm .tod =
      if c.todStopped = false ∧ c.tod.next = c.todAlarm then [.alarmTime] else [] := rfl
    rw [causes]
    by_cases running : c.todStopped = false
    · rw [expire_tod_running running]
      by_cases due : c.tod.next = c.todAlarm
      · rw [if_pos due, if_pos ⟨running, due⟩]
        exact ⟨_, _, _, rfl⟩
      · rw [if_neg due, if_neg fun both => due both.2, UInt8.or_zero]
        exact ⟨_, _, _, rfl⟩
    · have still : c.expire .tod = c := if_pos (by simpa using running)
      rw [still, if_neg fun both => running both.1]
      exact ⟨_, _, _, rfl⟩

/-- A write sets the flag of the serial register if it sends a byte, and no other, and leaves the
time alone that is held still. -/
theorem write_frame {ε : Type} [DecidableEq ε] [ToString ε] {event : Event → ε} {c c' : Cia}
    {clock clock' : Clock ε} {register b : UInt8}
    (h : c.write event clock register b = .ok (c', clock')) :
    c'.sources = flagged c.sources (c.causesOfWrite register) ∧ c'.todHeld = c.todHeld := by
  by_cases serial : register &&& 0x0F = 0x0C
  · unfold write at h
    unfold causesOfWrite
    rw [serial] at h ⊢
    cases h
    cases anyBit c.timerA.control Control.serialOut with
    | true => exact ⟨rfl, rfl⟩
    | false => exact ⟨rfl, rfl⟩
  · have quiet : c.causesOfWrite register = [] := if_neg fun sends => serial sends.1
    rw [quiet]
    unfold write at h
    split at h
    case h_9 | h_10 | h_11 | h_12 =>
      cases h
      unfold writeTod
      simp only []
      split <;> exact ⟨rfl, rfl⟩
    case h_13 at' => exact absurd (UInt8.toNat_inj.mp at') serial
    case h_15 | h_16 =>
      rw [writeControl_withControl event h]
      exact ⟨rfl, rfl⟩
    all_goals
      cases h
      exact ⟨rfl, rfl⟩

/-- What is written down of a chip. -/
inductive Note where
  | raised (cause : Cause)
  | read (register : UInt8)
  | reset
deriving DecidableEq

/-- A chip, what was written down of it, and what else is on the clock. -/
structure Watched (σ : Type) where
  cia : Cia
  notes : List Note
  rest : σ

namespace Watched

/-- One thing that happens. -/
inductive Turn (ε σ : Type) where
  | advance (cycles : Nat)
  | read (register : UInt8)
  | write (register b : UInt8)
  | drive (a b : UInt8)
  | flagEdge
  | reset
  | others (change : Clock ε × σ → Clock ε × σ)

variable {ε σ : Type} [DecidableEq ε] (event : Event → ε) (others : Handler ε σ) (budget : Nat)

/-- Hands its alarms to the chip, and every other to whoever waits for it. -/
def serve : Handler ε (Watched σ) := fun alarm clock s =>
  match owner? event alarm.event with
  | some e => do
    let (cia, clock) ← s.cia.onAlarm event clock e alarm.due
    return (clock, { s with cia, notes := s.notes ++ (s.cia.causesOfAlarm e).map .raised })
  | none => do
    let (clock, rest) ← others alarm clock s.rest
    return (clock, { s with rest })

/-- A turn, with what it is the cause of written down. -/
def act [ToString ε] (x : Clock ε × Watched σ) : Turn ε σ → Except Fault (Clock ε × Watched σ)
  | .advance cycles => advanceWithin budget (serve event others) cycles x.1 x.2
  | .read register =>
    let cia := (x.2.cia.read event x.1 register).2
    .ok (x.1, { x.2 with cia, notes := x.2.notes ++ [.read register] })
  | .write register b => do
    let (cia, clock) ← x.2.cia.write event x.1 register b
    let causes := x.2.cia.causesOfWrite register
    return (clock, { x.2 with cia, notes := x.2.notes ++ causes.map .raised })
  | .drive a b => .ok (x.1, { x.2 with cia := { x.2.cia with inputA := a, inputB := b } })
  | .flagEdge =>
    .ok (x.1, { x.2 with cia := x.2.cia.flagEdge, notes := x.2.notes ++ [.raised .flagEdge] })
  | .reset => do
    let (cia, clock) ← x.2.cia.reset event x.1
    return (clock, { x.2 with cia, notes := x.2.notes ++ [.reset] })
  | .others change =>
    let (clock, rest) := change (x.1, x.2.rest)
    .ok (clock, { x.2 with rest })

/-- Turns one after another. -/
def run [ToString ε] (turns : List (Turn ε σ)) (x : Clock ε × Watched σ) :
    Except Fault (Clock ε × Watched σ) :=
  turns.foldlM (act event others budget) x

/-- Nobody else is on the clock. -/
def alone : Handler ε Unit := fun _ clock s => .ok (clock, s)

variable {event others budget} {s s' : Watched σ} {x y : Clock ε × Watched σ}

/-- What an alarm does to what is watched: it is the chip's own, with what it causes, or it leaves
the chip alone. -/
inductive Fired (s : Watched σ) : Watched σ → Prop
  | own (e : Event) : Fired s { s with
      cia := s.cia.expire e, notes := s.notes ++ (s.cia.causesOfAlarm e).map .raised }
  | other (rest : σ) : Fired s { s with rest }

theorem serve_fired {alarm : Alarm ε} {clock clock' : Clock ε}
    (h : serve event others alarm clock s = .ok (clock', s')) : Fired s s' := by
  unfold serve at h
  cases whose : owner? event alarm.event with
  | some e =>
    simp only [whose] at h
    obtain ⟨⟨cia, clock''⟩, handled, hret⟩ := bind_eq_ok.mp h
    cases hret
    obtain ⟨-, rfl⟩ := onAlarm_ok event handled
    exact .own e
  | none =>
    simp only [whose] at h
    obtain ⟨⟨clock'', rest⟩, -, hret⟩ := bind_eq_ok.mp h
    cases hret
    exact .other rest

/-- What every alarm keeps, an advance keeps. -/
theorem advance_keeps [ToString ε] {P : Watched σ → Prop}
    (each : ∀ {s s' : Watched σ}, P s → Fired s s' → P s') {cycles : Nat} (before : P x.2)
    (h : act event others budget x (.advance cycles) = .ok y) : P y.2 :=
  advanceWithin_carries (fun holds ran => each holds (serve_fired ran)) before h

/-- What every turn of a run keeps, the run keeps. -/
theorem run_keeps [ToString ε] {P : Clock ε × Watched σ → Prop} {turns : List (Turn ε σ)}
    (each : ∀ turn ∈ turns, ∀ {x y}, P x → act event others budget x turn = .ok y → P y)
    (before : P x) (h : run event others budget turns x = .ok y) : P y := by
  induction turns generalizing x with
  | nil =>
    cases h
    exact before
  | cons turn rest ih =>
    unfold run at h
    rw [List.foldlM_cons] at h
    obtain ⟨z, first, others⟩ := bind_eq_ok.mp h
    exact ih (fun t mem => each t (.tail turn mem)) (each turn (.head rest) before first) others

end Watched

end C64.Cia
