import C64.Cia
import C64.Proofs.Clock.Responding

/-!
# The alarms of the adapter

What an alarm of the chip does, apart from the clock: `Cia.expire` says what becomes of the chip
and `Cia.again?` when the alarm comes again. Handling an alarm is doing both (`Cia.onAlarm_eq`),
as long as a tenth of a second is not too long for the clock (`Cia.Config.Paced`).

A chip keeps the configuration it was built to, and a write that succeeds leads from a reachable
clock to a reachable one.
-/

namespace C64.Cia

open Clock

/-! ## A tenth of a second -/

/-- The longest interval between two tenths of a second leaves room for the alarm. -/
def Config.Paced (config : Config) : Prop :=
  config.cpuHz / max config.todHz 1 * 6 ≤ Cycle.headroom

instance (config : Config) : Decidable config.Paced :=
  inferInstanceAs (Decidable (_ ≤ Cycle.headroom))

/-- Cycles from one tenth of a second to the next. -/
def tenth (c : Cia) : Nat :=
  max (c.config.cpuHz / max c.config.todHz 1 *
    (if anyBit c.timerA.control Control.fiftyHertz then 5 else 6)) 1

theorem one_le_tenth (c : Cia) : 1 ≤ c.tenth := Nat.le_max_right ..

theorem tenth_le {c : Cia} (h : c.config.Paced) : c.tenth ≤ Cycle.headroom := by
  unfold Config.Paced at h
  refine Nat.max_le.mpr ⟨Nat.le_trans (Nat.mul_le_mul_left _ ?_) h, by decide⟩
  split <;> decide

theorem todInterval_eq_of_le {c : Cia} (h : c.tenth ≤ Cycle.last) :
    c.todInterval = .ok c.tenth := by
  have room : c.config.cpuHz / max c.config.todHz 1 *
      (if anyBit c.timerA.control Control.fiftyHertz then 5 else 6) ≤ Cycle.last :=
    Nat.le_trans (Nat.le_max_left ..) h
  unfold todInterval Cycle.mul tenth
  simp only [if_pos room]
  rfl

theorem todInterval_eq {c : Cia} (h : c.config.Paced) : c.todInterval = .ok c.tenth :=
  todInterval_eq_of_le (Nat.le_trans (tenth_le h) (Nat.sub_le ..))

/-! ## What an alarm does -/

/-- The chip behind one of its alarms. -/
def expire (e : Event) (c : Cia) : Cia :=
  match e with
  | .timer .a =>
    let c := (c.raise (Source.timer .a)).withTimer .a c.timerA.underflow
    if c.chained then c.countUnderflow else c
  | .timer .b => (c.raise (Source.timer .b)).withTimer .b c.timerB.underflow
  | .tod => if c.todStopped then c else c.advanceTod

/-- Cycles until an alarm comes again, if it does. -/
def again? (e : Event) (c : Cia) : Option Nat :=
  match e with
  | .timer which =>
    let t := c.timer which
    if t.oneShot then none else some (t.latch.toNat + 1)
  | .tod => some (c.expire .tod).tenth

theorem again?_of_oneShot {c : Cia} {which : TimerId} (h : (c.timer which).oneShot = true) :
    c.again? (.timer which) = none := by
  simp only [again?, h, if_true]

theorem again?_of_continuous {c : Cia} {which : TimerId} (h : (c.timer which).oneShot = false) :
    c.again? (.timer which) = some ((c.timer which).latch.toNat + 1) := by
  simp only [again?, h, Bool.false_eq_true, if_false]

/-- No alarm changes the configuration, or moves a pin of port A. -/
theorem expire_frame (e : Event) (c : Cia) :
    (c.expire e).config = c.config ∧ (c.expire e).pinsA = c.pinsA := by
  cases e with
  | timer which =>
    cases which with
    | a =>
      simp only [expire]
      split
      · unfold countUnderflow; split <;> exact ⟨rfl, rfl⟩
      · exact ⟨rfl, rfl⟩
    | b => exact ⟨rfl, rfl⟩
  | tod =>
    simp only [expire]
    split
    · exact ⟨rfl, rfl⟩
    · unfold advanceTod
      simp only []
      split <;> exact ⟨rfl, rfl⟩

theorem expire_config (e : Event) (c : Cia) : (c.expire e).config = c.config :=
  (c.expire_frame e).1

theorem pinsA_expire (e : Event) (c : Cia) : (c.expire e).pinsA = c.pinsA :=
  (c.expire_frame e).2

theorem again?_pos {c : Cia} {e : Event} {delay : Nat} (h : c.again? e = some delay) :
    1 ≤ delay := by
  cases e with
  | timer which =>
    simp only [again?] at h
    split at h
    · exact absurd h (by simp)
    · obtain rfl := Option.some.inj h
      exact Nat.succ_pos _
  | tod =>
    obtain rfl := Option.some.inj h
    exact one_le_tenth _

theorem again?_le_of_le {c : Cia} (h : (c.expire .tod).tenth ≤ Cycle.headroom) {e : Event}
    {delay : Nat} (hd : c.again? e = some delay) : delay ≤ Cycle.headroom := by
  cases e with
  | timer which =>
    simp only [again?] at hd
    split at hd
    · exact absurd hd (by simp)
    · obtain rfl := Option.some.inj hd
      exact count_le_headroom _
  | tod =>
    obtain rfl := Option.some.inj hd
    exact h

theorem again?_le {c : Cia} (hp : c.config.Paced) {e : Event} {delay : Nat}
    (h : c.again? e = some delay) : delay ≤ Cycle.headroom :=
  again?_le_of_le (tenth_le ((c.expire_config .tod).symm ▸ hp)) h

theorem underflow_eq {ε : Type} [DecidableEq ε] (event : Event → ε) (c : Cia)
    (clock : Clock ε) (which : TimerId) (due : Nat) :
    c.underflow event clock which due = do
      let clock ← clock.setAgain (event (.timer which)) due (c.again? (.timer which))
      return ((c.raise (Source.timer which)).withTimer which (c.timer which).underflow, clock) := by
  simp only [underflow, again?]
  cases hs : (c.timer which).oneShot with
  | true => rfl
  | false =>
    simp only [Bool.false_eq_true, if_false, setAgain]
    cases Cycle.add due ((c.timer which).latch.toNat + 1) <;> rfl

/-- Handling an alarm is what `expire` and `again?` say, whatever the alarms of the chip are
called on the clock. -/
theorem onAlarm_eq_of_le {ε : Type} [DecidableEq ε] (event : Event → ε) {c : Cia}
    (h : (c.expire .tod).tenth ≤ Cycle.last) (clock : Clock ε) (e : Event) (due : Nat) :
    c.onAlarm event clock e due = do
      let clock ← clock.setAgain (event e) due (c.again? e)
      return (c.expire e, clock) := by
  cases e with
  | timer which =>
    cases which with
    | a =>
      simp only [onAlarm, expire, underflow_eq]
      cases clock.setAgain (event (.timer .a)) due (c.again? (.timer .a)) <;> rfl
    | b =>
      simp only [onAlarm, expire, underflow_eq]
      rfl
  | tod =>
    have hi : (if c.todStopped then c else c.advanceTod).todInterval = .ok (c.expire .tod).tenth :=
      todInterval_eq_of_le h
    simp only [onAlarm, again?, setAgain]
    rw [hi]
    simp only [bind, Except.bind]
    cases Cycle.add due (c.expire .tod).tenth <;> rfl

theorem onAlarm_eq {ε : Type} [DecidableEq ε] (event : Event → ε) {c : Cia}
    (h : c.config.Paced) (clock : Clock ε) (e : Event) (due : Nat) :
    c.onAlarm event clock e due = do
      let clock ← clock.setAgain (event e) due (c.again? e)
      return (c.expire e, clock) :=
  onAlarm_eq_of_le event
    (Nat.le_trans (tenth_le ((c.expire_config .tod).symm ▸ h)) (Nat.sub_le ..)) clock e due

/-- The alarms of one chip as a responder. -/
def responder : Responder Event Cia := recurring again? expire

theorem responder_steady : responder.Steady fun c => c.config.Paced :=
  recurring_steady (fun _ _ hc _ hd => ⟨again?_pos hd, again?_le hc hd⟩)
    fun e c hc => (c.expire_config e).symm ▸ hc

/-- Handles the alarms of a chip that has a clock to itself. -/
def handler : Handler Event Cia := fun alarm clock c => do
  let (c, clock) ← c.onAlarm id clock alarm.event alarm.due
  return (clock, c)

theorem handler_describes : responder.Describes (fun c => c.config.Paced) handler := by
  intro alarm clock c hc
  unfold handler responder
  rw [onAlarm_eq id hc, recurring_handler, id]
  cases clock.setAgain alarm.event alarm.due (c.again? alarm.event) <;> rfl

/-! ## Clocks behind an operation -/

section Operations

variable {ε : Type} [DecidableEq ε] [ToString ε] (event : Event → ε)

theorem scheduleTod_eq {c : Cia} {clock : Clock ε} (hc : clock.WellFormed)
    (room : c.tenth ≤ Cycle.headroom) :
    c.scheduleTod event clock = .ok (clock.setAlarm (clock.now + c.tenth) (event .tod)) := by
  unfold scheduleTod
  rw [todInterval_eq_of_le (Nat.le_trans room (Nat.sub_le ..))]
  exact bind_eq_ok.mpr ⟨_, rfl, bind_eq_ok.mpr ⟨_, hc.setAlarmIn_eq room _, rfl⟩⟩

theorem scheduleTod_reachable {c : Cia} {clock clock' : Clock ε} (hc : clock.Reachable)
    (h : c.scheduleTod event clock = .ok clock') : clock'.Reachable := by
  obtain ⟨tenth, -, hrest⟩ := bind_eq_ok.mp h
  obtain ⟨⟨due, clock₁⟩, hset, hret⟩ := bind_eq_ok.mp hrest
  cases hret
  exact hc.setAlarmIn hset

theorem new_ok {config : Config} {c : Cia} {clock clock' : Clock ε} (hc : clock.Reachable)
    (h : new event config clock = .ok (c, clock')) : clock'.Reachable ∧ c.config = config := by
  obtain ⟨clock₁, htod, hret⟩ := bind_eq_ok.mp h
  cases hret
  exact ⟨scheduleTod_reachable event hc htod, rfl⟩

theorem reset_ok {c c' : Cia} {clock clock' : Clock ε} (hc : clock.Reachable)
    (h : c.reset event clock = .ok (c', clock')) :
    clock'.Reachable ∧ c'.config = c.config :=
  new_ok event (((hc.cancel _).cancel _).cancel _) h

theorem withTimer_config (c : Cia) (which : TimerId) (t : Timer) :
    (c.withTimer which t).config = c.config := by
  cases which <;> rfl

theorem writeTod_config (c : Cia) (part : TimePart) (b : UInt8) :
    (c.writeTod part b).config = c.config := by
  unfold writeTod
  simp only []
  split <;> rfl

theorem writeControl_ok {c c' : Cia} {clock clock' : Clock ε} {which : TimerId} {b : UInt8}
    (hc : clock.Reachable) (h : c.writeControl event clock which b = .ok (c', clock')) :
    clock'.Reachable ∧ c'.config = c.config := by
  have stopped := hc.cancel (event (.timer which))
  unfold writeControl freeze at h
  simp only [pure_bind] at h
  split at h
  · obtain ⟨⟨due, clock₁⟩, hset, hrest⟩ := bind_eq_ok.mp h
    have started := stopped.setAlarmIn hset
    split at hrest
    · obtain ⟨clock₂, htod, hret⟩ := bind_eq_ok.mp hrest
      cases hret
      exact ⟨scheduleTod_reachable event started htod, by simp only [withTimer_config]⟩
    · cases hrest
      exact ⟨started, by simp only [withTimer_config]⟩
  · split at h
    · obtain ⟨clock₂, htod, hret⟩ := bind_eq_ok.mp h
      cases hret
      exact ⟨scheduleTod_reachable event stopped htod, by simp only [withTimer_config]⟩
    · cases h
      exact ⟨stopped, by simp only [withTimer_config]⟩

theorem write_ok {c c' : Cia} {clock clock' : Clock ε} {register b : UInt8}
    (hc : clock.Reachable) (h : c.write event clock register b = .ok (c', clock')) :
    clock'.Reachable ∧ c'.config = c.config := by
  unfold write at h
  split at h
  case h_9 | h_10 | h_11 | h_12 => cases h; exact ⟨hc, writeTod_config c _ b⟩
  case h_13 => cases h; exact ⟨hc, by simp only []; split <;> rfl⟩
  case h_15 => exact writeControl_ok event hc h
  case h_16 => exact writeControl_ok event hc h
  all_goals (cases h; exact ⟨hc, rfl⟩)

omit [ToString ε] in
theorem read_config (c : Cia) (clock : Clock ε) (register : UInt8) :
    (c.read event clock register).2.config = c.config := by
  unfold read
  simp only []
  split <;> rfl

end Operations

end C64.Cia
